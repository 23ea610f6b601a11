import Mathlib.Logic.Function.Basic
import PowerLift.Proofs.Execution
import PowerLift.Proofs.Layout
import PowerLift.Proofs.Meaning
import PowerLift.Proofs.Primitive

/-!
# The guest state as a register file

Seen through the registers, the record of bytes is a file of independent cells: one for each slot.
A vector register is a cell under another name, and a floating-point register is the high half of
one. Code that reads and writes registers in any order answers as the file does.
-/

namespace PowerLift

/-! ## Bits of the record -/

namespace GuestState

variable {σ : GuestState} {order : ByteOrder} {offset : Nat} {ty : Ty} {v : Value}

theorem gather_lt (byte : Nat → BitVec 8) (n : Nat) : gather byte n < 2 ^ (8 * n) := by
  induction n with
  | zero => exact Nat.one_pos
  | succ n ih =>
      have hbyte := (byte n).isLt
      rw [gather, Nat.shiftLeft_eq, Nat.mul_succ, Nat.pow_add]
      calc gather byte n + (byte n).toNat * 2 ^ (8 * n)
          < 2 ^ (8 * n) + (byte n).toNat * 2 ^ (8 * n) := Nat.add_lt_add_right ih _
        _ = ((byte n).toNat + 1) * 2 ^ (8 * n) := by
          exact (Nat.add_comm _ _).trans (Nat.succ_mul _ _).symm
        _ ≤ 2 ^ 8 * 2 ^ (8 * n) := Nat.mul_le_mul_right _ hbyte
        _ = 2 ^ (8 * n) * 2 ^ 8 := Nat.mul_comm _ _

theorem testBit_gather (byte : Nat → BitVec 8) {n k : Nat} (hk : k < 8 * n) :
    (gather byte n).testBit k = (byte (k / 8)).getLsbD (k % 8) := by
  induction n with
  | zero => omega
  | succ n ih =>
      rw [gather, Nat.shiftLeft_eq, Nat.add_comm, Nat.mul_comm,
        Nat.testBit_two_pow_mul_add _ (gather_lt byte n)]
      split
      next hlt => exact ih hlt
      next hge =>
        rw [show k / 8 = n by omega, show k % 8 = k - 8 * n by omega]
        rfl

theorem bits_eq_bytes (hty : ty ≠ .i1) : ty.bits = 8 * ty.bytes := by
  cases ty <;> simp_all [Ty.bytes, Ty.bits]

/-- A bit of a stored value is a bit of one of its bytes. -/
theorem getLsbD_read (hty : ty ≠ .i1) {k : Nat} (hk : k < ty.bits) :
    (σ.read order offset ty).getLsbD k =
      (σ (offset + order.position ty.bytes (k / 8))).getLsbD (k % 8) := by
  rw [bits_eq_bytes hty] at hk
  rw [read, BitVec.getLsbD_ofNat, testBit_gather _ hk, bits_eq_bytes hty]
  simp [hk]

/-- A byte of a value that was written. -/
theorem write_byte {i : Nat} (hi : i < v.ty.bytes) :
    σ.write order offset v (offset + order.position v.ty.bytes i) =
      v.bits.extractLsb' (8 * i) 8 := by
  have hlt := position_lt order hi
  rw [write, if_pos (by omega), Nat.add_sub_cancel_left, position_position order hi]

/-- A write leaves what is read elsewhere. -/
theorem read_write_disjoint {offset' : Nat}
    (h : offset + v.ty.bytes ≤ offset' ∨ offset' + ty.bytes ≤ offset) :
    (σ.write order offset v).read order offset' ty = σ.read order offset' ty := by
  refine read_congr fun o hge hlt => ?_
  rw [write, if_neg (by omega)]

/-- A write of what a place holds changes nothing. -/
theorem write_read (hty : ty ≠ .i1) : σ.write order offset ⟨ty, σ.read order offset ty⟩ = σ := by
  funext o
  unfold write
  split
  next hwithin =>
    have hi : o - offset < ty.bytes := by
      simp only at hwithin
      omega
    have hposition := position_lt order hi
    apply BitVec.eq_of_getLsbD_eq
    intro k hk
    have hbit : 8 * order.position ty.bytes (o - offset) + k < ty.bits := by
      rw [bits_eq_bytes hty]
      omega
    rw [BitVec.getLsbD_extractLsb', getLsbD_read hty hbit,
      show (8 * order.position ty.bytes (o - offset) + k) / 8 =
        order.position ty.bytes (o - offset) by omega,
      show (8 * order.position ty.bytes (o - offset) + k) % 8 = k by omega,
      position_position order hi, show offset + (o - offset) = o by omega]
    simp [hk]
  next => rfl

/-! ## Halves of a vector -/

/-- Where the high half of a vector starts. -/
def highHalf (order : ByteOrder) : Nat := if order = .little then 8 else 0

theorem highHalf_position (order : ByteOrder) {i : Nat} (hi : i < 8) :
    highHalf order + order.position 8 i = order.position 16 (8 + i) := by
  cases order <;> simp only [highHalf, ByteOrder.position, reduceCtorEq, if_true, if_false]
  omega

/-- The high half of a vector is stored as a doubleword of its own. -/
theorem getLsbD_read_highHalf {k : Nat} (hk : k < 64) :
    (σ.read order (offset + highHalf order) .f64).getLsbD k =
      (σ.read order offset .v128).getLsbD (64 + k) := by
  have hposition := highHalf_position order (show k / 8 < 8 by omega)
  rw [getLsbD_read (by decide) hk, getLsbD_read (by decide) (show 64 + k < 128 by omega),
    show (64 + k) / 8 = 8 + k / 8 by omega, show (64 + k) % 8 = k % 8 by omega]
  simp only [Ty.bytes, Ty.bits, Nat.reduceDiv]
  rw [← hposition, Nat.add_assoc]

/-- A write of the high half keeps the low one. -/
theorem getLsbD_read_write_highHalf (hv : v.ty = .f64) {k : Nat} (hk : k < 128) :
    ((σ.write order (offset + highHalf order) v).read order offset .v128).getLsbD k =
      if k < 64 then (σ.read order offset .v128).getLsbD k else v.bits.getLsbD (k - 64) := by
  have hbytes : v.ty.bytes = 8 := by rw [hv]; rfl
  rw [getLsbD_read (by decide) hk]
  split
  next hlow =>
    -- The low half lies off the bytes that are written.
    have hbyte : σ.write order (offset + highHalf order) v
        (offset + order.position Ty.v128.bytes (k / 8)) =
          σ (offset + order.position Ty.v128.bytes (k / 8)) := by
      rw [write, hbytes, if_neg]
      cases order <;> simp only [highHalf, ByteOrder.position, Ty.bytes, Ty.bits, reduceCtorEq,
        if_true, if_false] <;> omega
    rw [hbyte, getLsbD_read (by decide) hk]
  next hhigh =>
    have hposition := highHalf_position order (show k / 8 - 8 < 8 by omega)
    have hbyte : σ.write order (offset + highHalf order) v
        (offset + highHalf order + order.position v.ty.bytes (k / 8 - 8)) =
          v.bits.extractLsb' (8 * (k / 8 - 8)) 8 := write_byte (by omega)
    rw [hbytes, Nat.add_assoc, hposition, show 8 + (k / 8 - 8) = k / 8 by omega] at hbyte
    simp only [Ty.bytes, Ty.bits, Nat.reduceDiv]
    have hlt : k % 8 < 8 := Nat.mod_lt k (by decide)
    rw [hbyte, BitVec.getLsbD_extractLsb', show 8 * (k / 8 - 8) + k % 8 = k - 64 by omega]
    simp only [hlt, decide_true, Bool.true_and]
    rfl

end GuestState

/-! ## Registers and cells -/

/-- A cell of the register file. -/
inductive Cell where
  | gpr (i : Fin 32)
  | vsr (i : Fin 64)
  | cr321 (f : Fin 8)
  | cr0 (f : Fin 8)
  | special (s : SpecialSlot)
  deriving DecidableEq

namespace Cell

/-- The slot of the record that stores a cell. -/
def slot : Cell → Slot
  | gpr i => .gpr i
  | vsr i => .vsr i
  | cr321 f => .cr321 f
  | cr0 f => .cr0 f
  | special s => .special s

abbrev ty (arch : Arch) (c : Cell) : Ty := c.slot.ty arch

def offset (arch : Arch) : Cell → Nat
  | gpr i => i * arch.wordBytes
  | vsr i => Layout.vsrBase arch + i * 16
  | cr321 f => Layout.crBase arch + 2 * f
  | cr0 f => Layout.crBase arch + 2 * f + 1
  | special s => Layout.specialOffset arch s

theorem locate_eq (arch : Arch) (c : Cell) :
    Layout.locate arch c.slot = .ok ⟨c.offset arch, c.ty arch⟩ := by
  cases c <;> simp [Layout.locate, Layout.offset, slot, offset, ty, Except.map]

/-- Every slot of the record stores a cell. -/
theorem exists_slot {arch : Arch} {s : Slot} {p : Layout.Place}
    (h : Layout.locate arch s = .ok p) : ∃ c : Cell, c.slot = s := by
  cases s with
  | gpr i => exact ⟨.gpr ⟨i, (Layout.locate_gpr h).1⟩, rfl⟩
  | vsr i => exact ⟨.vsr ⟨i, (Layout.locate_vsr h).1⟩, rfl⟩
  | cr321 f => exact ⟨.cr321 ⟨f, (Layout.locate_cr321 h).1⟩, rfl⟩
  | cr0 f => exact ⟨.cr0 ⟨f, (Layout.locate_cr0 h).1⟩, rfl⟩
  | special x => exact ⟨.special x, rfl⟩

theorem slot_injective {c c' : Cell} (h : c.slot = c'.slot) : c = c' := by
  cases c <;> cases c' <;> simp_all [slot, Fin.ext_iff]

theorem disjoint (arch : Arch) {c c' : Cell} (hne : c ≠ c') :
    c.offset arch + (c.ty arch).bytes ≤ c'.offset arch ∨
      c'.offset arch + (c'.ty arch).bytes ≤ c.offset arch :=
  Layout.locate_disjoint (c.locate_eq arch) (c'.locate_eq arch) fun h => hne (slot_injective h)

theorem ty_ne_i1 (arch : Arch) (c : Cell) : c.ty arch ≠ .i1 := by
  cases c with
  | special s => cases arch <;> cases s <;> decide
  | _ => cases arch <;> simp [ty, slot, Slot.ty, Arch.wordTy]

end Cell

/-- A register as code names it. -/
inductive Reg where
  | cell (c : Cell)
  /-- A floating-point register: the high half of a lower vector-scalar register. -/
  | fpr (i : Fin 32)
  /-- A vector register: an upper vector-scalar register. -/
  | vr (i : Fin 32)
  deriving DecidableEq

namespace Reg

open Lift

/-- The cell that a register is in. -/
def host : Reg → Cell
  | cell c => c
  | fpr i => .vsr (i.castLE (by decide))
  | vr i => .vsr (i.natAdd 32)

def ty (arch : Arch) : Reg → Ty
  | cell c => c.ty arch
  | fpr _ => .f64
  | vr _ => .v128

/-- Where a register is stored. -/
def offset (arch : Arch) (order : ByteOrder) : Reg → Nat
  | fpr i => (fpr i).host.offset arch + GuestState.highHalf order
  | r => r.host.offset arch

/-- Code that reads a register. -/
def get : Reg → Lift Expr
  | cell (.gpr i) => getGpr i
  | cell (.vsr i) => getVsr i
  | cell (.cr321 f) => getSlot (.cr321 f)
  | cell (.cr0 f) => getSlot (.cr0 f)
  | cell (.special s) => getSlot s
  | fpr i => getFpr i
  | vr i => getVr i

/-- Code that writes a register. -/
def put (r : Reg) (e : Expr) : Lift Unit :=
  match r with
  | cell (.gpr i) => putGpr i e
  | cell (.vsr i) => putVsr i e
  | cell (.cr321 f) => putCr321 f e
  | cell (.cr0 f) => putCr0 f e
  | cell (.special s) => putSlot s e
  | fpr i => putFpr i e
  | vr i => putVr i e

/-- The place that the layout gives a register. -/
def locate (arch : Arch) (order : ByteOrder) : Reg → Except Fault Layout.Place
  | cell c => Layout.locate arch c.slot
  | fpr i => Layout.fpr arch i order
  | vr i => Layout.vr arch i

theorem locate_eq (arch : Arch) (order : ByteOrder) (r : Reg) :
    r.locate arch order = .ok ⟨r.offset arch order, r.ty arch⟩ := by
  cases r with
  | cell c => exact c.locate_eq arch
  | vr i =>
      have hvsr := (Cell.vsr (i.natAdd 32)).locate_eq arch
      simp only [Cell.slot, Fin.val_natAdd, Nat.add_comm 32] at hvsr
      simp only [locate, Layout.vr, i.isLt, if_true, Layout.vsr, hvsr]
      rfl
  | fpr i =>
      have hi : (i : Nat) < 64 := by omega
      simp only [locate, Layout.fpr, i.isLt, if_true, Layout.offset, hi, Except.map]
      cases order <;> rfl

theorem get_eq (r : Reg) :
    r.get = (do let env ← read; getPlace (r.locate env.layout env.host)) := by
  cases r with
  | cell c => cases c <;> rfl
  | _ => rfl

theorem put_eq (r : Reg) (e : Expr) :
    r.put e = (do let env ← read; putPlace (r.locate env.layout env.host) e) := by
  cases r with
  | cell c => cases c <;> rfl
  | _ => rfl

theorem exec_get (env : Env) (p : Progress) (r : Reg) :
    exec env p r.get = (.ok (.get (r.offset env.layout env.host) (r.ty env.layout)), p) := by
  rw [get_eq, exec_bind]
  change exec env p (getPlace (r.locate env.layout env.host)) = _
  rw [locate_eq]
  rfl

theorem exec_put {env : Env} {p : Progress} {r : Reg} {e : Expr}
    (he : p.stage.check e = .ok (r.ty env.layout)) :
    exec env p (r.put e) = (.ok (), { p with
      stage := p.stage.push (.put (r.offset env.layout env.host) e) }) := by
  rw [put_eq, exec_bind]
  change exec env p (putPlace (r.locate env.layout env.host) e) = _
  rw [locate_eq, putPlace, exec_bind, exec_ofExcept]
  exact exec_onStage (by simp [Stage.put, he])

end Reg

/-! ## The register file -/

/-- Independent cells. -/
abbrev RegisterFile (arch : Arch) : Type := (c : Cell) → BitVec (c.ty arch).bits

namespace RegisterFile

/-- The high half of a vector. -/
def high (x : BitVec 128) : BitVec 64 := x.extractLsb' 64 64

/-- A vector with another high half. -/
def withHigh (x : BitVec 128) (y : BitVec 64) : BitVec 128 := y ++ x.extractLsb' 0 64

theorem getLsbD_high (x : BitVec 128) {k : Nat} (hk : k < 64) :
    (high x).getLsbD k = x.getLsbD (64 + k) := by
  simp [high, hk]

theorem getLsbD_withHigh (x : BitVec 128) (y : BitVec 64) (k : Nat) :
    (withHigh x y).getLsbD k = if k < 64 then x.getLsbD k else y.getLsbD (k - 64) := by
  rw [withHigh, BitVec.getLsbD_append]
  split
  next hk => simp [hk]
  next => rfl

variable {arch : Arch}

def read (file : RegisterFile arch) : (r : Reg) → BitVec (r.ty arch).bits
  | .cell c => file c
  | .fpr i => high (file (Reg.fpr i).host)
  | .vr i => file (Reg.vr i).host

/-- Writes one cell. -/
def set (file : RegisterFile arch) (c : Cell) (x : BitVec (c.ty arch).bits) : RegisterFile arch :=
  Function.update file c x

theorem set_self (file : RegisterFile arch) (c : Cell) (x : BitVec (c.ty arch).bits) :
    file.set c x c = x := by simp [set]

theorem set_of_ne (file : RegisterFile arch) {c c' : Cell} (x : BitVec (c.ty arch).bits)
    (h : c' ≠ c) : file.set c x c' = file c' := by simp [set, h]

def write (file : RegisterFile arch) : (r : Reg) → BitVec (r.ty arch).bits → RegisterFile arch
  | .cell c, x => file.set c x
  | .fpr i, x => file.set (Reg.fpr i).host (withHigh (file (Reg.fpr i).host) x)
  | .vr i, x => file.set (Reg.vr i).host x

/-- The file that a record of bytes stands for. -/
def ofState (arch : Arch) (order : ByteOrder) (σ : GuestState) : RegisterFile arch :=
  fun c => σ.read order (c.offset arch) (c.ty arch)

variable {order : ByteOrder} {σ : GuestState}

/-- A register is read as from the file. -/
theorem read_ofState (r : Reg) :
    (ofState arch order σ).read r = σ.read order (r.offset arch order) (r.ty arch) := by
  cases r with
  | cell c => rfl
  | vr i => rfl
  | fpr i =>
      refine BitVec.eq_of_getLsbD_eq fun k hk => ?_
      exact (getLsbD_high _ hk).trans (GuestState.getLsbD_read_highHalf hk).symm

/-- A write to one cell leaves the others. -/
theorem ofState_write_cell (c : Cell) (x : BitVec (c.ty arch).bits) :
    ofState arch order (σ.write order (c.offset arch) ⟨c.ty arch, x⟩) =
      (ofState arch order σ).set c x := by
  funext c'
  by_cases hc : c' = c
  · subst hc
    rw [set_self]
    exact GuestState.read_write (v := ⟨_, x⟩) (c'.ty_ne_i1 arch)
  · rw [set_of_ne _ _ hc]
    exact GuestState.read_write_disjoint (v := ⟨_, x⟩) (Cell.disjoint arch (Ne.symm hc))

/-- A write of a floating-point register stays within its vector. -/
theorem fpr_disjoint (i : Fin 32) {c : Cell} (hc : c ≠ (Reg.fpr i).host) :
    (Reg.fpr i).offset arch order + Ty.f64.bytes ≤ c.offset arch ∨
      c.offset arch + (c.ty arch).bytes ≤ (Reg.fpr i).offset arch order := by
  have hdisjoint := Cell.disjoint arch (Ne.symm hc)
  have hbytes : ((Reg.fpr i).host.ty arch).bytes = 16 := by
    simp [Reg.host, Cell.ty, Cell.slot, Slot.ty, Ty.bytes, Ty.bits]
  have hhalf : GuestState.highHalf order ≤ 8 := by cases order <;> decide
  have hdouble : Ty.f64.bytes = 8 := rfl
  simp only [Reg.offset]
  omega

/-- A register is written as in the file. -/
theorem ofState_write (r : Reg) (x : BitVec (r.ty arch).bits) :
    ofState arch order (σ.write order (r.offset arch order) ⟨r.ty arch, x⟩) =
      (ofState arch order σ).write r x := by
  cases r with
  | cell c => exact ofState_write_cell c x
  | vr i => exact ofState_write_cell (Reg.vr i).host x
  | fpr i =>
      funext c
      by_cases hc : c = (Reg.fpr i).host
      · subst hc
        refine Eq.trans ?_ (set_self _ (Reg.fpr i).host _).symm
        refine BitVec.eq_of_getLsbD_eq fun k hk => ?_
        exact (GuestState.getLsbD_read_write_highHalf rfl hk).trans (getLsbD_withHigh _ _ k).symm
      · refine Eq.trans ?_ (set_of_ne _ _ hc).symm
        exact GuestState.read_write_disjoint (v := ⟨_, x⟩) (fpr_disjoint i hc)

/-- A write of a floating-point register reaches the high half of one vector. -/
theorem write_fpr_apply (file : RegisterFile arch) (i : Fin 32) (x : BitVec 64) :
    file.write (.fpr i) x (Reg.fpr i).host = withHigh (file (Reg.fpr i).host) x ∧
      (∀ c, c ≠ (Reg.fpr i).host → file.write (.fpr i) x c = file c) ∧
      ∀ j, (file.write (.fpr i) x).read (.vr j) = file.read (.vr j) := by
  have hother : ∀ c, c ≠ (Reg.fpr i).host → file.write (.fpr i) x c = file c :=
    fun c hc => set_of_ne file _ hc
  refine ⟨set_self file _ _, hother, fun j => hother _ ?_⟩
  -- Vector registers are in the upper half of the vector-scalar registers.
  simp only [Reg.host, ne_eq, Cell.vsr.injEq, Fin.ext_iff, Fin.val_natAdd, Fin.val_castLE]
  omega

end RegisterFile

/-! ## Transfers -/

/-- A read of a register into a fresh temporary, or a write of a temporary to a register. -/
inductive Transfer where
  | get (r : Reg)
  | put (r : Reg) (t : Nat)
  deriving DecidableEq

namespace Transfer

open Lift

/-- The code of a transfer. -/
def lift : Transfer → Lift Unit
  | get r => do
      let e ← r.get
      let _ ← bind e
      return ()
  | put r t => r.put (.tmp t)

theorem exec_get (env : Env) (p : Progress) (r : Reg) :
    exec env p (get r).lift = (.ok (), { p with
      stage := { p.stage with
        types := p.stage.types.push (r.ty env.layout), bound := p.stage.bound.push true }.push
          (.bind (p.stage.base + p.stage.types.size)
            (.get (r.offset env.layout env.host) (r.ty env.layout))) }) := by
  rw [lift, exec_bind, Reg.exec_get]
  rfl

/-- Transfers behind temporaries of the types given write values of their registers' types. -/
def Typed (arch : Arch) : Array Ty → List Transfer → Prop
  | _, [] => True
  | types, get r :: rest => Typed arch (types.push (r.ty arch)) rest
  | types, put r t :: rest => types[t]? = some (r.ty arch) ∧ Typed arch types rest

end Transfer

/-- A register file and the values of the temporaries. -/
structure Bank (arch : Arch) where
  file : RegisterFile arch
  values : Array Value

namespace Bank

variable {arch : Arch}

/-- What a transfer does to a register file. -/
def step (b : Bank arch) : Transfer → Bank arch
  | .get r => { b with values := b.values.push ⟨r.ty arch, b.file.read r⟩ }
  | .put r t => { b with file := b.file.write r ((b.values[t]?.getD default).cut (r.ty arch)) }

def run (b : Bank arch) (ts : List Transfer) : Bank arch := ts.foldl step b

/-- The types of the temporaries. -/
def types (b : Bank arch) : Array Ty := b.values.map Value.ty

theorem step_put {b : Bank arch} {r : Reg} {t : Nat} {x : BitVec (r.ty arch).bits}
    (ht : b.values[t]? = some ⟨r.ty arch, x⟩) :
    b.step (.put r t) = { b with file := b.file.write r x } := by
  simp [step, ht]

/-- A machine that holds the registers and the temporaries of a bank. -/
structure Held {M : Type} (b : Bank arch) (order : ByteOrder) (m : Machine M) : Prop where
  file_eq : RegisterFile.ofState arch order m.state = b.file
  temps_eq : ∀ t v, b.values[t]? = some v → m.temps t = v

/-- A stage whose code does to a machine what was done to a bank. -/
structure Reached {M : Type} (I : Interp M) (m : Machine M) (s : Stage) (b : Bank arch) :
    Prop where
  types_eq : b.types = s.outer ++ s.types
  bound_eq : s.bound = .replicate s.types.size true
  held : ∀ types, ∃ m', runAll I types s.stmts.toList m = .behind m' ∧ b.Held I.order m' ∧
    m'.memory = m.memory

section Reached

variable {M : Type} {I : Interp M} {m : Machine M} {s : Stage} {b : Bank arch}

/-- A temporary of a bank may be read. -/
theorem Reached.check_eq (h : Reached I m s b) {t : Nat} {ty : Ty}
    (ht : b.types[t]? = some ty) : s.check (.tmp t) = .ok ty := by
  rw [h.types_eq, Array.getElem?_append] at ht
  by_cases hlt : t < s.outer.size
  · rw [if_pos hlt, Array.getElem?_eq_getElem hlt] at ht
    simpa [Stage.check, Expr.temps, Expr.check, Stage.checkRead, Stage.tempTy, Stage.base, hlt]
      using ht
  · rw [if_neg hlt] at ht
    have hbound : s.bound[t - s.outer.size]? = some true := by
      obtain ⟨hsize, -⟩ := Array.getElem?_eq_some_iff.mp ht
      rw [h.bound_eq, Array.getElem?_replicate, if_pos hsize]
    simp [Stage.check, Expr.temps, Expr.check, Stage.checkRead, Stage.tempTy, Stage.base, hlt, ht,
      hbound]

theorem Reached.get (h : Reached I m s b) {offset : Nat} {ty : Ty} {x : BitVec ty.bits}
    (hx : ∀ m' : Machine M, b.Held I.order m' → m'.state.read I.order offset ty = x) :
    Reached I m ({ s with types := s.types.push ty, bound := s.bound.push true }.push
      (.bind (s.base + s.types.size) (.get offset ty)))
      { b with values := b.values.push ⟨ty, x⟩ } := by
  have hsize : b.values.size = s.base + s.types.size := by
    have hmap := congrArg Array.size h.types_eq
    simpa [Bank.types, Stage.base] using hmap
  constructor
  · have htypes := h.types_eq
    simp only [Bank.types] at htypes
    simp [Bank.types, htypes]
  · simp [h.bound_eq, Array.replicate_succ]
  · intro types
    obtain ⟨m', hrun, hheld, hmemory⟩ := h.held types
    refine ⟨m'.bind b.values.size ⟨ty, x⟩, ?_, ⟨hheld.file_eq, ?_⟩, hmemory⟩
    · rw [Stage.push_stmts, runAll_append, hrun, Flow.andThen, runAll_single, ← hsize]
      simp only [Stmt.run, Expr.eval, hx m' hheld]
    · intro t v ht
      rw [Array.getElem?_push] at ht
      by_cases hlast : t = b.values.size
      · rw [if_pos hlast] at ht
        simpa [Machine.bind, hlast] using ht
      · rw [if_neg hlast] at ht
        simpa [Machine.bind, hlast] using hheld.temps_eq t v ht

theorem Reached.put (h : Reached I m s b) {r : Reg} {t : Nat} {x : BitVec (r.ty arch).bits}
    (ht : b.values[t]? = some ⟨r.ty arch, x⟩) :
    Reached I m (s.push (.put (r.offset arch I.order) (.tmp t)))
      { b with file := b.file.write r x } := by
  refine ⟨h.types_eq, h.bound_eq, fun types => ?_⟩
  obtain ⟨m', hrun, hheld, hmemory⟩ := h.held types
  refine ⟨{ m' with state := m'.state.write I.order (r.offset arch I.order) ⟨r.ty arch, x⟩ }, ?_,
    ⟨?_, hheld.temps_eq⟩, hmemory⟩
  · rw [Stage.push_stmts, runAll_append, hrun, Flow.andThen, runAll_single]
    simp only [Stmt.run, Expr.eval, hheld.temps_eq t _ ht]
  · rw [RegisterFile.ofState_write, hheld.file_eq]

/-- One transfer. -/
theorem Reached.transfer {env : Env} (horder : I.order = env.host) {b : Bank env.layout}
    {p : Progress} (h : Reached I m p.stage b) (t : Transfer) {rest : List Transfer}
    (ht : Transfer.Typed env.layout b.types (t :: rest)) :
    ∃ p', Lift.exec env p t.lift = (.ok (), p') ∧ Reached I m p'.stage (b.step t) ∧
      Transfer.Typed env.layout (b.step t).types rest := by
  cases t with
  | get r =>
      have hread : ∀ m' : Machine M, b.Held I.order m' →
          m'.state.read I.order (r.offset env.layout I.order) (r.ty env.layout) =
            b.file.read r := by
        intro m' hheld
        rw [← RegisterFile.read_ofState, hheld.file_eq]
      have hget := h.get hread
      rw [horder] at hget
      exact ⟨_, Transfer.exec_get env p r, hget,
        by simpa [Transfer.Typed, step, Bank.types] using ht⟩
  | put r t =>
      obtain ⟨hty, hrest⟩ := ht
      obtain ⟨v, hv, hvty⟩ : ∃ v, b.values[t]? = some v ∧ v.ty = r.ty env.layout := by
        simpa [Bank.types] using hty
      obtain ⟨ty, x⟩ := v
      subst hvty
      rw [step_put hv]
      have hput := h.put hv
      rw [horder] at hput
      exact ⟨_, Reg.exec_put (h.check_eq hty), hput, hrest⟩

/-- Transfers in order. -/
theorem Reached.transfers {env : Env} (horder : I.order = env.host) {b : Bank env.layout}
    {p : Progress} (h : Reached I m p.stage b) (ts : List Transfer)
    (hts : Transfer.Typed env.layout b.types ts) :
    ∃ p', Lift.exec env p (ts.forM Transfer.lift) = (.ok (), p') ∧
      Reached I m p'.stage (b.run ts) := by
  induction ts generalizing p b with
  | nil => exact ⟨p, rfl, h⟩
  | cons t ts ih =>
      obtain ⟨p₁, hfirst, h₁, hts₁⟩ := h.transfer horder t hts
      obtain ⟨p₂, hrest, h₂⟩ := ih h₁ hts₁
      refine ⟨p₂, ?_, h₂⟩
      change Lift.exec env p (t.lift >>= fun _ => ts.forM Transfer.lift) = _
      rw [Lift.exec_bind, hfirst]
      exact hrest

end Reached

end Bank

/-- The record of bytes refines a file of independent registers: transfers in any order do to the
bytes what they do to the file. Slots are in bounds, aligned and apart, and a floating-point
register is the high half of its vector-scalar register and of no other. -/
theorem RegisterFile.record_refines {M : Type} (env : Env) (I : Interp M)
    (horder : I.order = env.host) (block : Block) (m : Machine M) (values : Array Value)
    (hvalues : values.map Value.ty = block.types)
    (hm : ∀ t v, values[t]? = some v → m.temps t = v) (ts : List Transfer)
    (hts : Transfer.Typed env.layout block.types ts) :
    (∃ p m', Lift.exec env { stage := .start block } (ts.forM Transfer.lift) = (.ok (), p) ∧
      runAll I (block.types ++ p.stage.types) p.stage.stmts.toList m = .behind m' ∧
      Bank.Held (Bank.run ⟨ofState env.layout env.host m.state, values⟩ ts) env.host m' ∧
      m'.memory = m.memory) ∧
    (∀ s p, Layout.locate env.layout s = .ok p → ∃ c : Cell, c.slot = s) ∧
    (∀ c : Cell, ∃ p, Layout.locate env.layout c.slot = .ok p ∧ p.ty = c.ty env.layout ∧
      p.offset + p.ty.bytes ≤ Layout.size env.layout ∧ p.offset % p.ty.bytes = 0 ∧
      ∀ c' q, c' ≠ c → Layout.locate env.layout c'.slot = .ok q → p.Disjoint q) ∧
    (∀ i : Fin 32, ∃ p, Layout.fpr env.layout i env.host = .ok p ∧ p.ty = .f64 ∧
      ∀ (σ : GuestState) (x : BitVec 64),
        let before := ofState env.layout env.host σ
        let after := ofState env.layout env.host (σ.write env.host p.offset ⟨.f64, x⟩)
        after (Reg.fpr i).host = withHigh (before (Reg.fpr i).host) x ∧
          (∀ c, c ≠ (Reg.fpr i).host → after c = before c) ∧
          ∀ j, after.read (.vr j) = before.read (.vr j)) := by
  refine ⟨?_, fun s p => Cell.exists_slot, fun c => ?_, fun i => ?_⟩
  · let b : Bank env.layout := ⟨ofState env.layout env.host m.state, values⟩
    have hstart : Bank.Reached I m (Stage.start block) b :=
      ⟨by simp [Bank.types, Stage.start, hvalues, b], rfl,
        fun types => ⟨m, rfl, ⟨by rw [horder], hm⟩, rfl⟩⟩
    obtain ⟨p, hexec, hp⟩ := Bank.Reached.transfers horder (p := { stage := .start block }) hstart
      ts (by rw [Bank.types, hvalues]; exact hts)
    obtain ⟨m', hrun, hheld, hmemory⟩ := hp.held (block.types ++ p.stage.types)
    rw [horder] at hheld
    exact ⟨p, m', hexec, hrun, hheld, hmemory⟩
  · have hlocate := c.locate_eq env.layout
    refine ⟨_, hlocate, rfl, Layout.locate_bounds hlocate, Layout.locate_aligned hlocate, ?_⟩
    intro c' q hne hq
    exact Layout.locate_disjoint hlocate hq fun h => hne (Cell.slot_injective h).symm
  · refine ⟨_, (Reg.fpr i).locate_eq env.layout env.host, rfl, fun σ x => ?_⟩
    dsimp only
    rw [show ofState env.layout env.host (σ.write env.host _ ⟨.f64, x⟩) = _ from
      ofState_write (.fpr i) x]
    exact write_fpr_apply _ i x

/-- A vector is written, then its high half, and both are read back. -/
theorem RegisterFile.record_refines_half :
    let env : Env := { (default : Env) with host := .big, layout := .ppc64 }
    let values : Array Value := #[⟨.f64, 0x3FF0000000000000⟩, ⟨.v128, 5⟩]
    let block : Block := { (default : Block) with types := #[.f64, .v128] }
    let m : Machine Unit := ⟨fun t => values[t]?.getD default, (), fun _ => 0⟩
    let ts : List Transfer :=
      [.put (.cell (.vsr 3)) 1, .put (.fpr 3) 0, .get (.cell (.vsr 3)), .get (.fpr 3), .get (.vr 3)]
    Transfer.Typed env.layout block.types ts ∧
      ∃ p m', Lift.exec env { stage := .start block } (ts.forM Transfer.lift) = (.ok (), p) ∧
        runAll (.zero .big) (block.types ++ p.stage.types) p.stage.stmts.toList m = .behind m' ∧
        m'.temps 2 = ⟨.v128, 0x3FF00000000000000000000000000005⟩ ∧
        m'.temps 3 = ⟨.f64, 0x3FF0000000000000⟩ ∧ m'.temps 4 = ⟨.v128, 0⟩ := by
  intro env values block m ts
  have hts : Transfer.Typed env.layout block.types ts := ⟨rfl, rfl, trivial⟩
  have hm : ∀ t v, values[t]? = some v → m.temps t = v := by
    intro t v ht
    simp [m, ht]
  obtain ⟨⟨p, m', hexec, hrun, hheld, -⟩, -⟩ :=
    record_refines env (.zero .big) rfl block m values (by simp [values, block]) hm ts hts
  refine ⟨hts, p, m', hexec, hrun, ?_, ?_, ?_⟩
  · exact hheld.temps_eq 2 _ (by decide +kernel)
  · exact hheld.temps_eq 3 _ (by decide +kernel)
  · exact hheld.temps_eq 4 _ (by decide +kernel)

end PowerLift
