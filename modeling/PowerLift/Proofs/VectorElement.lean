import PowerLift.Family.VectorInteger
import PowerLift.Proofs.Access
import PowerLift.Proofs.Routes

/-!
# Elements of vectors in memory

A vector is stored as a quadword in the byte order of the host, at the address rounded down. A store
of an element writes the bytes at the address rounded down to its size. Which element that is counts
from the most significant end, whatever the byte order: on a big-endian host it is the element that
a store of the whole vector would put there, on a little-endian host the one at the mirrored place.
-/

namespace PowerLift

open Lift (Does Leads exec)
open PowerLift.Expr (un bin)

variable {M : Type} {I : Interp M} {env : Env} {p : Progress} {m : Machine M} {w : Insn}

/-! ## Vector registers -/

/-- A read of a vector register. -/
def Expr.vr (arch : Arch) (i : Nat) : Expr := .get (Layout.vsrBase arch + (i + 32) * 16) .v128

/-- The value of a vector register. -/
def GuestState.vr (arch : Arch) (order : ByteOrder) (σ : GuestState) (i : Nat) : BitVec 128 :=
  σ.read order (Layout.vsrBase arch + (i + 32) * 16) .v128

/-- The state with a new value in a vector register. -/
def GuestState.withVr (arch : Arch) (order : ByteOrder) (σ : GuestState) (i : Nat)
    (x : BitVec 128) : GuestState :=
  σ.write order (Layout.vsrBase arch + (i + 32) * 16) ⟨.v128, x⟩

theorem GuestState.vr_withVr (arch : Arch) (order : ByteOrder) (σ : GuestState) (i : Nat)
    (x : BitVec 128) : (σ.withVr arch order i x).vr arch order i = x :=
  read_write (v := ⟨.v128, x⟩) Ty.noConfusion

theorem Layout.locate_vr (arch : Arch) {i : Nat} (hi : i < 32) :
    locate arch (.vsr (i + 32)) = .ok ⟨vsrBase arch + (i + 32) * 16, .v128⟩ := by
  simp [locate, offset, show i + 32 < 64 by omega, Except.map, Slot.ty]

theorem exec_getVr (hlayout : env.layout = env.arch) {i : Nat} (hi : i < 32) :
    exec env p (Lift.getVr i) = (.ok (.vr env.arch i), p) := by
  have hread : exec env p (Lift.getVr i) = exec env p (Lift.getSlot (.vsr (i + 32))) := by
    unfold Lift.getVr Layout.vr
    simp only [hi, if_true]
    rfl
  rw [hread, ← hlayout]
  exact Lift.exec_getSlot (Layout.locate_vr env.layout hi)

theorem putVr_does (hlayout : env.layout = env.arch) (hp : p.stage.Level) {i : Nat} (hi : i < 32)
    {e : Expr} (he : p.stage.check e = .ok .v128) {x : Machine M → BitVec 128}
    (hx : ∀ m, e.eval I m = ⟨.v128, x m⟩) :
    ∃ p', Does env I p (Lift.putVr i e) () p'
      fun m => { m with state := m.state.withVr env.arch I.order i (x m) } := by
  have hwrite : Lift.putVr i e = Lift.putSlot (.vsr (i + 32)) e := by
    unfold Lift.putVr Layout.vr
    simp only [hi, if_true]
    rfl
  have hput : Does env I p (Lift.putSlot (.vsr (i + 32)) e) _ _ _ :=
    Lift.putSlot_does hp (Layout.locate_vr env.layout hi) he
  rw [hwrite]
  refine ⟨_, hput.exec_eq, hput.next_eq, hput.follows, ?_⟩
  obtain ⟨ss, hss, hrun⟩ := hput.code
  refine ⟨ss, hss, fun types m => ?_⟩
  rw [hrun, hx, hlayout]
  rfl

/-! ## Rounding -/

/-- An address rounded down to a multiple of `n`. -/
def roundDown (addr : BitVec 64) (n : Nat) : BitVec 64 := .ofNat 64 (addr.toNat / n * n)

/-- A rounded address in code. -/
def rounded (env : Env) (ea : Expr) (n : Nat) : Expr :=
  bin (.and env.arch.word.width) ea (env.imm (~~~(.ofNat 64 n - 1)))

theorem rounded_check {s : Stage} {ea : Expr} (hea : s.check ea = .ok env.arch.wordTy) (n : Nat) :
    s.check (rounded env ea n) = .ok env.arch.wordTy :=
  word_check (fun _ => rfl) hea (env.imm_check s _)

/-- The mask of the bits that alignment leaves. -/
theorem setWidth_highMask (arch : Arch) {k : Nat} (hk : k ≤ 4) :
    (~~~(BitVec.ofNat 64 (2 ^ k) - 1)).setWidth arch.wordTy.bits = ~~~.ofNat _ (2 ^ k - 1) := by
  revert k
  cases arch <;> decide

theorem wordBits_le (arch : Arch) : arch.wordTy.bits ≤ 64 := by cases arch <;> decide

theorem rounded_address (hI : I.Modular) {ea : Expr} {v : Value} (hv : v.ty = env.arch.wordTy)
    (hea : ea.eval I m = v) {n : Nat} (hn : n ∈ accessSizes) :
    ((rounded env ea n).eval I m).address = roundDown v.address n := by
  obtain ⟨x, rfl⟩ := Value.exists_eq hv
  obtain ⟨k, hk, rfl⟩ := exists_pow_of_mem hn
  rw [rounded, word_and hI hea (env.imm_eval _), setWidth_highMask env.arch hk]
  apply BitVec.eq_of_toNat_eq
  have hle : x.toNat / 2 ^ k * 2 ^ k ≤ x.toNat := Nat.div_mul_le_self _ _
  have hlt := (x.setWidth 64).isLt
  simp only [Value.address, roundDown, BitVec.toNat_setWidth_of_le (wordBits_le _),
    BitVec.toNat_ofNat] at hlt ⊢
  rw [toNat_and_high x (le_wordBits _ hk), Nat.mod_eq_of_lt (by omega)]

/-! ## Elements in memory -/

/-- The number of bytes of an element. -/
def Narrow.bytes (width : Narrow) : Nat := width.bits / 8

theorem Narrow.bytes_cases (width : Narrow) :
    width.bytes = 1 ∨ width.bytes = 2 ∨ width.bytes = 4 := by
  cases width <;> decide

theorem Narrow.bytes_pos (width : Narrow) : 0 < width.bytes := by
  cases width <;> decide

/-- The address whose byte, in a vector stored as a whole at `q`, a store of an element writes
at `a`. -/
def ByteOrder.elementSource (order : ByteOrder) (n : Nat) (q a : BitVec 64) : BitVec 64 :=
  match order with
  | .big => a
  | .little => q + .ofNat 64 (16 - n - (a - q).toNat / n * n + (a - q).toNat % n)

/-- The byte that stores of elements leave at a place of the quadword. -/
def elementByte (order : ByteOrder) (n : Nat) (x : BitVec 128) (d : Nat) : BitVec 8 :=
  x.extractLsb' (8 * (16 - n - d / n * n + order.position n (d % n))) 8

theorem elementByte_add (order : ByteOrder) (width : Narrow) (x : BitVec 128) (r : Nat) {i : Nat}
    (hi : i < width.bytes) : elementByte order width.bytes x (r / width.bytes * width.bytes + i) =
      x.extractLsb' (8 * (16 - width.bytes - r / width.bytes * width.bytes +
        order.position width.bytes i)) 8 := by
  have hdiv : (r / width.bytes * width.bytes + i) / width.bytes = r / width.bytes := by
    rw [Nat.add_comm, Nat.add_mul_div_right _ _ width.bytes_pos, Nat.div_eq_of_lt hi, Nat.zero_add]
  rw [elementByte, hdiv, Nat.mul_add_mod_self_right, Nat.mod_eq_of_lt hi]

namespace ByteMemory

variable {bytes : ByteMemory} {order : ByteOrder} {addr a q : BitVec 64} {x : BitVec 128}

/-- Memory with the element of a vector that an address names. -/
def writeElement (bytes : ByteMemory) (order : ByteOrder) (n : Nat) (addr : BitVec 64)
    (x : BitVec 128) : ByteMemory := fun a =>
  if (a - roundDown addr n).toNat < n then
    bytes.write order (roundDown addr 16) ⟨.v128, x⟩ (order.elementSource n (roundDown addr 16) a)
  else bytes a

theorem write_elementSource (width : Narrow) (h : (a - q).toNat < 16) :
    bytes.write order q ⟨.v128, x⟩ (order.elementSource width.bytes q a) =
      elementByte order width.bytes x (a - q).toNat := by
  let k := 16 - width.bytes - (a - q).toNat / width.bytes * width.bytes +
    order.position width.bytes ((a - q).toNat % width.bytes)
  have hk : k < 16 := by
    have hposition := GuestState.position_lt order (Nat.mod_lt (a - q).toNat width.bytes_pos)
    rcases width.bytes_cases with hn | hn | hn <;> simp only [k, hn] at hposition ⊢ <;> omega
  have hsource : (order.elementSource width.bytes q a - q).toNat = order.position 16 k := by
    cases order with
    | big =>
        simp only [ByteOrder.elementSource, k, ByteOrder.position]
        rcases width.bytes_cases with hn | hn | hn <;> rw [hn] <;> omega
    | little =>
        have hsub (b : BitVec 64) : (q + b - q) = b := by bv_omega
        rw [ByteOrder.elementSource, hsub, BitVec.toNat_ofNat]
        exact Nat.mod_eq_of_lt (Nat.lt_trans hk (by decide))
  rw [← bytes_vector] at hk hsource
  have hinside : (order.elementSource width.bytes q a - q).toNat < Ty.v128.bytes := by
    rw [hsource]
    exact GuestState.position_lt order hk
  rw [write_inside hinside, Value.byteAt, hsource]
  exact congrArg (fun i => x.extractLsb' (8 * i) 8) (GuestState.position_position order hk)

/-- The element that an address names is a part of its quadword. -/
theorem element_within (width : Narrow) (addr a : BitVec 64) :
    let n := width.bytes
    let r := addr.toNat % 16
    let d := (a - roundDown addr 16).toNat
    ((a - roundDown addr n).toNat < n ↔ d < 16 ∧ d / n = r / n) ∧
      (r / n * n ≤ d → (a - roundDown addr n).toNat = d - r / n * n) := by
  intro n r d
  have hround : roundDown addr n = roundDown addr 16 + .ofNat 64 (r / n * n) := by
    unfold roundDown
    rw [← BitVec.ofNat_add]
    congr 1
    simp only [r, n]
    rcases width.bytes_cases with hn | hn | hn <;> rw [hn] <;> omega
  have hle : r / n * n + n ≤ 16 := by
    simp only [r, n]
    rcases width.bytes_cases with hn | hn | hn <;> rw [hn] <;> omega
  obtain ⟨hin, hsub⟩ :=
    toNat_sub_add a (roundDown addr 16) (k := r / n * n) (n := n) (by omega)
  rw [hround]
  refine ⟨hin.trans ?_, hsub⟩
  change r / n * n ≤ d ∧ d < r / n * n + n ↔ _
  simp only [n] at hle ⊢
  rcases width.bytes_cases with hn | hn | hn <;> rw [hn] at hle ⊢ <;> omega

/-- A value whose bytes are those of an element. -/
theorem write_eq_writeElement {width : Narrow} {v : Value} (hv : v.ty = width.width.ty)
    (hbytes : ∀ i < width.bytes, v.byteAt order i =
      elementByte order width.bytes x (addr.toNat % 16 / width.bytes * width.bytes + i)) :
    bytes.write order (roundDown addr width.bytes) v =
      bytes.writeElement order width.bytes addr x := by
  funext a
  obtain ⟨hwithin, hsub⟩ := element_within width addr a
  have hsize : v.ty.bytes = width.bytes := by
    rw [hv]
    cases width <;> rfl
  rw [write, writeElement, hsize]
  split
  next hin =>
    obtain ⟨hlt, ho⟩ := hwithin.mp hin
    have hle : addr.toNat % 16 / width.bytes * width.bytes ≤ (a - roundDown addr 16).toNat := by
      rw [← ho]
      exact Nat.div_mul_le_self _ _
    rw [write_elementSource width hlt, hbytes _ hin, hsub hle, Nat.add_sub_cancel' hle]
  next => rfl

end ByteMemory

/-! ## Elements in code -/

/-- Where in its quadword the element starts that an address names. -/
def elementPlace (env : Env) (ea : Expr) (n : Nat) : Expr :=
  narrowed env.arch .w8 (bin (.and env.arch.word.width) ea (env.imm (.ofNat 64 (16 - n))))

/-- The distance in bits between the last element and one that starts at a place. -/
def elementShift (n : Nat) (place : Expr) : Expr :=
  bin (.shl .w8) (bin (.sub .w8) (.u8 (.ofNat 8 (16 - n))) place) (.u8 3)

/-- The low element of a vector that was shifted. -/
def shiftedElement (width : Narrow) (v shift : Expr) : Expr :=
  let lane := un (.cast .lowVto32) (bin (.vector .shrAll) v shift)
  match width with
  | .w8 => un (.cast .low32to8) lane
  | .w16 => un (.cast .low32to16) lane
  | .w32 => lane

section

variable {s : Stage} {ea v shift : Expr} {width : Narrow}

theorem elementPlace_check (hea : s.check ea = .ok env.arch.wordTy) (n : Nat) :
    s.check (elementPlace env ea n) = .ok .i8 := by
  unfold elementPlace
  exact narrowed_check Width.noConfusion (word_check (fun _ => rfl) hea (env.imm_check s _))

theorem elementShift_check {place : Expr} (hplace : s.check place = .ok .i8) (n : Nat) :
    s.check (elementShift n place) = .ok .i8 :=
  Stage.check_bin rfl (Stage.check_bin rfl rfl hplace) rfl

theorem shiftedElement_check (hv : s.check v = .ok .v128) (hshift : s.check shift = .ok .i8) :
    s.check (shiftedElement width v shift) = .ok width.width.ty := by
  have hlane : s.check (un (.cast .lowVto32) (bin (.vector .shrAll) v shift)) = .ok .i32 :=
    Stage.check_un rfl (Stage.check_bin rfl hv hshift)
  cases width with
  | w8 => exact Stage.check_un rfl hlane
  | w16 => exact Stage.check_un rfl hlane
  | w32 => exact hlane

/-- The mask of the bits that tell the element. -/
theorem setWidth_placeMask (arch : Arch) {k : Nat} (hk : k ≤ 2) :
    (BitVec.ofNat 64 (16 - 2 ^ k)).setWidth arch.wordTy.bits =
      .ofNat _ (2 ^ 4 - 1) &&& ~~~.ofNat _ (2 ^ k - 1) := by
  revert k
  cases arch <;> decide

theorem elementPlace_eval (hI : I.Modular) {a : Value} (ha : a.ty = env.arch.wordTy)
    (hea : ea.eval I m = a) (width : Narrow) :
    (elementPlace env ea width.bytes).eval I m =
      .i8 (.ofNat 8 (a.address.toNat % 16 / width.bytes * width.bytes)) := by
  obtain ⟨x, rfl⟩ := Value.exists_eq ha
  obtain ⟨k, hk, hn⟩ : ∃ k ≤ 2, width.bytes = 2 ^ k := by
    cases width
    · exact ⟨0, by decide, rfl⟩
    · exact ⟨1, by decide, rfl⟩
    · exact ⟨2, by decide, rfl⟩
  refine (narrowed_eval hI.toBitwise Width.noConfusion (word_and hI hea (env.imm_eval _))).trans ?_
  refine congrArg (Value.mk .i8)
    ((BitVec.ofNat_toNat 8 _).symm.trans (congrArg (BitVec.ofNat 8) ?_))
  rw [hn, setWidth_placeMask env.arch hk, ← BitVec.and_assoc,
    toNat_and_high _ (le_wordBits _ (Nat.le_trans hk (by decide))),
    toNat_and_low x (le_wordBits _ (Nat.le_refl 4)), Value.address,
    BitVec.toNat_setWidth_of_le (wordBits_le _)]
  rfl

theorem elementShift_eval (hI : I.Modular) {place : Expr} {r : Nat} (hr : r < 16) (width : Narrow)
    (hplace : place.eval I m = .i8 (.ofNat 8 (r / width.bytes * width.bytes))) :
    (elementShift width.bytes place).eval I m =
      .i8 (.ofNat 8 (8 * (16 - width.bytes - r / width.bytes * width.bytes))) := by
  have hamount : ∀ r < 16, (BitVec.ofNat 8 (16 - width.bytes) -
      .ofNat 8 (r / width.bytes * width.bytes)) <<< 3 =
        BitVec.ofNat 8 (8 * (16 - width.bytes - r / width.bytes * width.bytes)) := by
    cases width <;> decide
  exact (hI.eval_shl (hI.eval_sub rfl hplace) rfl (by decide)).trans
    (congrArg Value.i8 (hamount r hr))

theorem shiftedElement_eval (width : Narrow) (hI : I.Modular) (hshifts : I.Shifts)
    {x : BitVec 128} {k : Nat} (hk : k < 16) (hv : v.eval I m = ⟨.v128, x⟩)
    (hshift : shift.eval I m = .i8 (.ofNat 8 (8 * k))) (order : ByteOrder) :
    ((shiftedElement width v shift).eval I m).ty = width.width.ty ∧
      ∀ i < width.bytes, ((shiftedElement width v shift).eval I m).byteAt order i =
        x.extractLsb' (8 * (k + order.position width.bytes i)) 8 := by
  have hamount : (BitVec.ofNat 8 (8 * k)).toNat = 8 * k :=
    Nat.mod_eq_of_lt (by omega)
  have hlane := hshifts.eval_lowVto32 (hshifts.eval_shrAll hv hshift (by omega))
  rw [hamount] at hlane
  have hbytes {n : Nat} (hn : 8 * n ≤ 32) {i : Nat} (hi : i < n) :
      (((x >>> (8 * k)).setWidth 32).setWidth (8 * n)).extractLsb' (8 * order.position n i) 8 =
        x.extractLsb' (8 * (k + order.position n i)) 8 := by
    have hlt := GuestState.position_lt order hi
    refine BitVec.eq_of_getLsbD_eq fun b hb => ?_
    simp only [BitVec.getLsbD_extractLsb', BitVec.getLsbD_setWidth, BitVec.getLsbD_ushiftRight, hb,
      show 8 * order.position n i + b < 8 * n by omega,
      show 8 * order.position n i + b < 32 by omega, decide_true, Bool.true_and]
    congr 1
    omega
  have hvalue : (shiftedElement width v shift).eval I m =
      ⟨width.width.ty, ((x >>> (8 * k)).setWidth 32).setWidth _⟩ := by
    cases width with
    | w8 => exact hI.eval_cast rfl rfl hlane
    | w16 => exact hI.eval_cast rfl rfl hlane
    | w32 => exact hlane.trans (congrArg (Value.mk .i32) (BitVec.setWidth_eq _).symm)
  rw [hvalue]
  refine ⟨rfl, fun i hi => ?_⟩
  cases width <;> exact hbytes (by decide) hi

end

/-! ## Transfers -/

/-- What an instruction leaves that stores a vector as a whole. -/
structure StoresVector (I : Interp M) (view : M → ByteMemory) (arch : Arch) (host : ByteOrder)
    (w : Insn) (m m' : Machine M) : Prop where
  memory : view m'.memory = (view m.memory).write host
    (roundDown (m.effective I arch w).address 16) ⟨.v128, m.state.vr arch I.order w.rd⟩
  state : m'.state = m.state

/-- What an instruction leaves that stores an element of a vector. -/
structure StoresElement (I : Interp M) (view : M → ByteMemory) (arch : Arch) (host : ByteOrder)
    (n : Nat) (w : Insn) (m m' : Machine M) : Prop where
  memory : view m'.memory = (view m.memory).writeElement host n
    (m.effective I arch w).address (m.state.vr arch I.order w.rd)
  state : m'.state = m.state

/-- What an instruction leaves that loads a vector. -/
structure LoadsVector (I : Interp M) (view : M → ByteMemory) (arch : Arch) (host : ByteOrder)
    (w : Insn) (m m' : Machine M) : Prop where
  memory : m'.memory = m.memory
  state : m'.state = m.state.withVr arch I.order w.rd
    ((view m.memory).read host (roundDown (m.effective I arch w).address 16) .v128)

/-- The machine holds the address of an instruction in a temporary. -/
def Machine.Holds (I : Interp M) (arch : Arch) (w : Insn) (t : Nat) (m : Machine M) : Prop :=
  m.temps t = m.effective I arch w

theorem Machine.Holds.eval {t : Nat} (hm : m.Holds I env.arch w t) :
    (Expr.tmp t).eval I m = m.effective I env.arch w := hm

theorem Machine.Holds.rounded_address (hI : I.Modular) {t n : Nat}
    (hm : m.Holds I env.arch w t) (hn : n ∈ accessSizes) :
    ((rounded env (.tmp t) n).eval I m).address = roundDown (m.effective I env.arch w).address n :=
  PowerLift.rounded_address hI rfl hm.eval hn

namespace VectorInteger

variable {view : M → ByteMemory} {name : String} {t : Nat}

/-- What all transfers do, before each does its own part. -/
def transfer (w : Insn) (f : Expr → Lift Unit) : Lift Unit := do
  Lift.reservedClear w w.record "vector load/store bit 31"
  let ea ← Lift.bind (← Lift.eaOr0Idx w.ra w.rb)
  f ea

/-- A transfer finds its address in a temporary. -/
theorem transfer_achieves (hI : I.Modular) (hlayout : env.layout = env.arch)
    (hp : p.stage.Level) {f : Expr → Lift Unit} {Q : Machine M → Machine M → Prop}
    (hf : ∀ (p : Progress) (t : Nat), p.stage.Level →
      p.stage.check (.tmp t) = .ok env.arch.wordTy →
      Lift.Achieves env I p (f (.tmp t)) (Machine.Holds I env.arch w t) Q)
    (hQ : ∀ m t v m', Q (Machine.bind m t v) m' → Q m m') :
    Lift.Achieves env I p (transfer w f) (fun _ => True) Q := by
  let ea := Expr.indexed env.arch w.ra w.rb
  refine .guard (Lift.reservedClear_admits w _ _) fun _ => ?_
  refine .after (.still hp (exec_eaOr0Idx hlayout w.ra_lt w.rb_lt)) ?_
  have hbind : Does env I p (Lift.bind ea) _ _ _ :=
    Lift.bind_does hp (Expr.indexed_check p.stage env.arch w.ra w.rb)
  refine .andThen hbind.leads
    (hf _ _ hbind.follows.level (Stage.check_fresh hp ea env.arch.wordTy)) (fun m _ => ?_)
    fun m m' _ => hQ m _ _ m'
  exact (if_pos rfl).trans (Expr.indexed_eval hI env.arch w.ra w.rb)

variable (hI : I.Modular) (hview : I.Bytewise view) (hlayout : env.layout = env.arch)
  (hp : p.stage.Level) (ht : p.stage.check (.tmp t) = .ok env.arch.wordTy)

include hI hview hlayout hp ht

theorem store_achieves :
    Lift.Achieves env I p (store w name (.tmp t)) (Machine.Holds I env.arch w t)
      (StoresVector I view env.arch env.host w) := by
  refine .listed hp fun p₁ hstage => ?_
  have hp₁ : p₁.stage.Level := hstage ▸ hp
  have hstore := store_does (I := I) (v := .vr env.arch w.rd) hp₁
    (rounded_check (hstage ▸ ht) 16) rfl Ty.noConfusion
  refine .after (.still hp₁ rfl) (.after (.still hp₁ (exec_getVr hlayout w.rd_lt))
    (.of_leads hstore.leads fun m hm => ⟨?_, rfl⟩))
  refine (hview.store _ _ _ _ Ty.noConfusion).trans ?_
  rw [hm.rounded_address hI (by decide)]
  rfl

theorem load_achieves :
    Lift.Achieves env I p (load w name (.tmp t)) (Machine.Holds I env.arch w t)
      (LoadsVector I view env.arch env.host w) := by
  refine .listed hp fun p₁ hstage => ?_
  have hp₁ : p₁.stage.Level := hstage ▸ hp
  let loaded := Expr.load env.host .v128 (rounded env (.tmp t) 16)
  have hcheck : p₁.stage.check loaded = .ok .v128 :=
    Stage.check_load (rounded_check (hstage ▸ ht) 16) _ _
  obtain ⟨p₂, hput⟩ := putVr_does (I := I) hlayout hp₁ w.rd_lt hcheck fun m => rfl
  refine .after (.still hp₁ rfl) (.after (.still hp₁ rfl)
    (.of_leads hput.leads fun m hm => ⟨rfl, ?_⟩))
  refine congrArg (m.state.withVr env.arch I.order w.rd)
    ((hview.load _ _ _ _ Ty.noConfusion).trans ?_)
  rw [hm.rounded_address hI (by decide)]

theorem storeElement_achieves (hshifts : I.Shifts) (width : Narrow) :
    Lift.Achieves env I p (storeElement w name width (.tmp t)) (Machine.Holds I env.arch w t)
      (StoresElement I view env.arch env.host width.bytes w) := by
  refine .listed hp fun p₁ hstage => ?_
  have hp₁ : p₁.stage.Level := hstage ▸ hp
  let word := bin (.and env.arch.word.width) (.tmp t) (env.imm (.ofNat 64 (16 - width.bytes)))
  let shift := elementShift width.bytes (elementPlace env (.tmp t) width.bytes)
  let value := shiftedElement width (.vr env.arch w.rd) shift
  have htype : word.typeOf p₁.stage.tempTy = .ok env.arch.wordTy := by
    change Except.ok (Op.and env.arch.word.width).signature.ret = _
    cases env.arch <;> rfl
  have hea : p₁.stage.check (.tmp t) = .ok env.arch.wordTy := hstage ▸ ht
  have hvalue : p₁.stage.check value = .ok width.width.ty :=
    shiftedElement_check rfl (elementShift_check (elementPlace_check hea _) _)
  have hstore := store_does (I := I) hp₁ (rounded_check hea width.bytes) hvalue (by
    cases width <;> decide)
  have hexec : exec env p₁ (Lift.narrow word Width.w8.ty) = (.ok (narrowed _ .w8 word), p₁) :=
    exec_narrow Width.noConfusion htype
  have hnarrow := Does.still (I := I) hp₁ hexec
  refine .after (.still hp₁ rfl) (.after (.still hp₁ rfl) (.after hnarrow
    (.after (.still hp₁ (exec_getVr hlayout w.rd_lt)) (.after (.still hp₁ rfl)
      (.of_leads hstore.leads fun m hm => ⟨?_, rfl⟩)))))
  let addr := m.effective I env.arch w
  let x := m.state.vr env.arch I.order w.rd
  have hr : addr.address.toNat % 16 < 16 := Nat.mod_lt _ (by decide)
  have hshift := elementShift_eval hI hr width (elementPlace_eval hI rfl hm.eval width)
  have hvr : (Expr.vr env.arch w.rd).eval I m = ⟨.v128, x⟩ := rfl
  have hlast : 16 - width.bytes - addr.address.toNat % 16 / width.bytes * width.bytes < 16 := by
    have hpos := width.bytes_pos
    omega
  obtain ⟨hty, hbytes⟩ := shiftedElement_eval width hI hshifts hlast hvr hshift env.host
  refine (hview.store _ _ _ _ (by rw [hty]; cases width <;> decide)).trans ?_
  rw [hm.rounded_address hI (by cases width <;> decide)]
  exact ByteMemory.write_eq_writeElement hty fun i hi =>
    (hbytes i hi).trans (elementByte_add env.host width x _ hi).symm

end VectorInteger

/-! ## The instructions -/

/-- The width of the elements that an instruction stores, by its extended opcode. -/
def Insn.elementWidth? (w : Insn) : Option Narrow :=
  match w.xo10 with
  | 135 => some .w8
  | 167 => some .w16
  | 199 => some .w32
  | _ => none

/-- The instructions that store whole vectors. -/
def Insn.IsVectorStore (w : Insn) : Prop := w.xo10 = 231 ∨ w.xo10 = 487

/-- The instructions that load whole vectors. -/
def Insn.IsVectorLoad (w : Insn) : Prop := w.xo10 = 103 ∨ w.xo10 = 359

theorem Route.find?_vectorTransfer (hopcode : w.opcode = 31)
    (hxo : w.xo10 ∈ [103, 135, 167, 199, 231, 359, 487]) :
    ∃ route, Route.find? w = some route ∧ route.family = .vectorInteger :=
  find?_family hopcode (by decide) hxo

namespace Guest

variable {g : Guest} {l : Lifted} {ss : List Stmt} {view : M → ByteMemory}

theorem Codes.transfers (h : g.Codes w l ss) (hopcode : w.opcode = 31)
    (hxo : w.xo10 ∈ [103, 135, 167, 199, 231, 359, 487]) {f : Expr → Lift Unit}
    (hf : VectorInteger.memory w = VectorInteger.transfer w f) (hI : I.Modular)
    {Q : Machine M → Machine M → Prop}
    (hx : ∀ (env : Env) (p : Progress) (t : Nat), env.layout = env.arch → env.arch = g.arch →
      env.host = g.host → p.stage.Level → p.stage.check (.tmp t) = .ok env.arch.wordTy →
      Lift.Achieves env I p (f (.tmp t)) (Machine.Holds I env.arch w t) Q)
    (hQ : ∀ m t v m', Q (Machine.bind m t v) m' → Q m m') :
    l = ⟨4, .continue, none⟩ ∧ ∀ types m, ∃ m', runAll I types ss m = .behind m' ∧ Q m m' := by
  obtain ⟨⟨pattern, gates, family⟩, hroute, rfl⟩ := Route.find?_vectorTransfer hopcode hxo
  have hlift : VectorInteger.lift w = VectorInteger.memory w := by
    simp only [VectorInteger.lift, hopcode]
  have hachieves (env : Env) (p : Progress) (hlayout : env.layout = env.arch)
      (harch : env.arch = g.arch) (hhost : env.host = g.host) (hp : p.stage.Level) :
      Lift.Achieves env I p (Lift.instruction w) (fun _ => True) Q := by
    refine .instruction hroute ?_
    change Lift.Achieves env I p (VectorInteger.lift w) _ _
    rw [hlift, hf]
    exact VectorInteger.transfer_achieves hI hlayout hp
      (fun p t hp ht => hx env p t hlayout harch hhost hp ht) hQ
  obtain ⟨hl, hrun⟩ := h.achieves hopcode hachieves
  exact ⟨hl, fun types m => hrun types m trivial⟩

theorem Codes.stores_vector (h : g.Codes w l ss) (hopcode : w.opcode = 31)
    (hstore : w.IsVectorStore) (hI : I.Modular) (hview : I.Bytewise view) :
    l = ⟨4, .continue, none⟩ ∧ ∀ types m, ∃ m', runAll I types ss m = .behind m' ∧
      StoresVector I view g.arch g.host w m m' := by
  obtain ⟨name, hf⟩ : ∃ name, VectorInteger.memory w =
      VectorInteger.transfer w (VectorInteger.store w name) := by
    unfold VectorInteger.memory VectorInteger.transfer
    rcases hstore with h | h <;> simp only [h] <;> exact ⟨_, rfl⟩
  refine h.transfers hopcode (by rcases hstore with h | h <;> simp [h]) hf hI ?_ ?_
  · intro env p t hlayout harch hhost hp ht
    rw [← harch, ← hhost]
    exact VectorInteger.store_achieves hI hview hlayout hp ht
  · exact fun m t v m' hm => ⟨hm.memory, hm.state⟩

theorem Codes.loads_vector (h : g.Codes w l ss) (hopcode : w.opcode = 31)
    (hload : w.IsVectorLoad) (hI : I.Modular) (hview : I.Bytewise view) :
    l = ⟨4, .continue, none⟩ ∧ ∀ types m, ∃ m', runAll I types ss m = .behind m' ∧
      LoadsVector I view g.arch g.host w m m' := by
  obtain ⟨name, hf⟩ : ∃ name, VectorInteger.memory w =
      VectorInteger.transfer w (VectorInteger.load w name) := by
    unfold VectorInteger.memory VectorInteger.transfer
    rcases hload with h | h <;> simp only [h] <;> exact ⟨_, rfl⟩
  refine h.transfers hopcode (by rcases hload with h | h <;> simp [h]) hf hI ?_ ?_
  · intro env p t hlayout harch hhost hp ht
    rw [← harch, ← hhost]
    exact VectorInteger.load_achieves hI hview hlayout hp ht
  · exact fun m t v m' hm => ⟨hm.memory, hm.state⟩

theorem Codes.stores_element (h : g.Codes w l ss) (hopcode : w.opcode = 31) {width : Narrow}
    (hwidth : w.elementWidth? = some width) (hI : I.Modular) (hshifts : I.Shifts)
    (hview : I.Bytewise view) :
    l = ⟨4, .continue, none⟩ ∧ ∀ types m, ∃ m', runAll I types ss m = .behind m' ∧
      StoresElement I view g.arch g.host width.bytes w m m' := by
  obtain ⟨hxo, name, hf⟩ : w.xo10 ∈ [103, 135, 167, 199, 231, 359, 487] ∧ ∃ name,
      VectorInteger.memory w =
        VectorInteger.transfer w (VectorInteger.storeElement w name width) := by
    unfold Insn.elementWidth? at hwidth
    unfold VectorInteger.memory VectorInteger.transfer
    split at hwidth <;> cases hwidth <;> simp only [*] <;> exact ⟨by decide, _, rfl⟩
  refine h.transfers hopcode hxo hf hI ?_ ?_
  · intro env p t hlayout harch hhost hp ht
    rw [← harch, ← hhost]
    exact VectorInteger.storeElement_achieves hI hview hlayout hp ht hshifts width
  · exact fun m t v m' hm => ⟨hm.memory, hm.state⟩

end Guest

/-! ## All elements of a vector -/

/-- Accepted stores of elements run one after another, with any other code between them that leaves
memory alone, and take memory from one state to another. The register of each has the contents `x`,
and the address of each lies in the quadword at `q`; which of its elements, is listed. -/
inductive ElementRun (I : Interp M) (g : Guest) (width : Narrow) (x : BitVec 128)
    (q : BitVec 64) : List Nat → M → M → Prop
  | done (memory : M) : ElementRun I g width x q [] memory memory
  | store {w : Insn} {l : Lifted} {ss : List Stmt} {types : Array Ty} {m m' : Machine M}
      {elements : List Nat} {memory : M} (hcodes : g.Codes w l ss) (hopcode : w.opcode = 31)
      (hwidth : w.elementWidth? = some width) (hvalue : m.state.vr g.arch I.order w.rd = x)
      (haddress : roundDown (m.effective I g.arch w).address 16 = q)
      (hrun : runAll I types ss m = .behind m')
      (hrest : ElementRun I g width x q elements m'.memory memory) :
      ElementRun I g width x q
        ((m.effective I g.arch w).address.toNat % 16 / width.bytes :: elements) m.memory memory

/-- An element of a vector, the least significant one first. -/
def lane (n : Nat) (x : BitVec 128) (e : Nat) : BitVec (8 * n) := x.extractLsb' (8 * n * e) (8 * n)

section

variable {g : Guest} {width : Narrow} {x : BitVec 128} {q : BitVec 64} {view : M → ByteMemory}
  {elements : List Nat} {memory memory' : M}

/-- An element that is stored is in memory from then on: the stores that follow it write the same
bytes or others. -/
theorem ElementRun.memory_eq (h : ElementRun I g width x q elements memory memory')
    (hI : I.Modular) (hshifts : I.Shifts) (hview : I.Bytewise view) (a : BitVec 64) :
    view memory' a =
      if (a - q).toNat < 16 ∧ (a - q).toNat / width.bytes ∈ elements then
        elementByte g.host width.bytes x (a - q).toNat
      else view memory a := by
  induction h with
  | done memory => simp
  | @store w l ss types m m' elements memory hcodes hopcode hwidth hvalue haddress hrun hrest ih =>
      obtain ⟨-, hstores⟩ := hcodes.stores_element hopcode hwidth hI hshifts hview
      obtain ⟨m₁, hrun₁, hstored⟩ := hstores types m
      obtain rfl : m₁ = m' := Flow.behind.inj (hrun₁.symm.trans hrun)
      rw [ih, hstored.memory, ByteMemory.writeElement, hvalue, haddress]
      obtain ⟨hwithin, -⟩ := ByteMemory.element_within width (m.effective I g.arch w).address a
      rw [haddress] at hwithin
      simp only [hwithin, List.mem_cons]
      by_cases hlt : (a - q).toNat < 16
      · rw [ByteMemory.write_elementSource width hlt]
        by_cases hmem : (a - q).toNat / width.bytes ∈ elements <;>
          simp only [hlt, hmem, true_and, or_true, or_false, if_true, if_false]
      · simp only [hlt, false_and, if_false]

theorem elementByte_big (width : Narrow) (x : BitVec 128) {i : Nat} (hi : i < 16) :
    elementByte .big width.bytes x i = (⟨.v128, x⟩ : Value).byteAt .big i := by
  have hindex : 16 - width.bytes - i / width.bytes * width.bytes +
      ByteOrder.big.position width.bytes (i % width.bytes) = ByteOrder.big.position 16 i := by
    simp only [ByteOrder.position]
    rcases width.bytes_cases with hn | hn | hn <;> rw [hn] <;> omega
  rw [elementByte, hindex, ← ByteMemory.bytes_vector]
  rfl

/-- Elements in reverse order, by the bits of the bytes that hold them. -/
theorem lane_reversed {y : BitVec 128} (hbits : ∀ k < 128,
      y.getLsbD k = (elementByte .little width.bytes x (k / 8)).getLsbD (k % 8)) {e : Nat}
    (he : e < 16 / width.bytes) :
    lane width.bytes y e = lane width.bytes x (16 / width.bytes - 1 - e) := by
  refine BitVec.eq_of_getLsbD_eq fun b hb => ?_
  have hk : 8 * width.bytes * e + b < 128 := by
    rcases width.bytes_cases with hn | hn | hn <;> rw [hn] at he hb ⊢ <;> omega
  simp only [lane, BitVec.getLsbD_extractLsb', hb, hbits _ hk, elementByte, ByteOrder.position,
    Nat.mod_lt _ (show 8 > 0 by decide), decide_true, Bool.true_and]
  congr 1
  rcases width.bytes_cases with hn | hn | hn <;> rw [hn] at he hb ⊢ <;> omega

/-- What is read behind stores of all elements: the vector on a big-endian host, and its elements in
reverse order on a little-endian one. -/
theorem ElementRun.read_eq (h : ElementRun I g width x q elements memory memory')
    (hall : ∀ e < 16 / width.bytes, e ∈ elements) (hI : I.Modular) (hshifts : I.Shifts)
    (hview : I.Bytewise view) :
    (g.host = .big → (view memory').read .big q .v128 = x) ∧
      (g.host = .little → ∀ e < 16 / width.bytes,
        lane width.bytes ((view memory').read .little q .v128) e =
          lane width.bytes x (16 / width.bytes - 1 - e)) := by
  have hbytes : ∀ i < 16, view memory' (q + .ofNat 64 i) = elementByte g.host width.bytes x i := by
    intro i hi
    have hsub : (q + .ofNat 64 i - q).toNat = i := by bv_omega
    have helement : i / width.bytes ∈ elements := by
      refine hall _ ?_
      rcases width.bytes_cases with hn | hn | hn <;> rw [hn] <;> omega
    rw [h.memory_eq hI hshifts hview, hsub, if_pos ⟨hi, helement⟩]
  constructor
  · intro hbig
    rw [hbig] at hbytes
    exact ByteMemory.read_eq_of_bytes (v := ⟨.v128, x⟩) Ty.noConfusion fun i hi => by
      rw [ByteMemory.bytes_vector] at hi
      exact (hbytes i hi).trans (elementByte_big width x hi)
  · intro hlittle e he
    rw [hlittle] at hbytes
    refine lane_reversed (fun k hk => ?_) he
    rw [← hbytes _ (by omega), ← Nat.zero_add (k / 8)]
    exact GuestState.getLsbD_read Ty.noConfusion hk

/-- Stores of elements may run in any number, whatever the addresses in the quadword. -/
theorem ElementRun.exists_of_states {l : Lifted} {ss : List Stmt} (hcodes : g.Codes w l ss)
    (hopcode : w.opcode = 31) (hwidth : w.elementWidth? = some width) (hI : I.Modular)
    (hshifts : I.Shifts) (hview : I.Bytewise view) (element : GuestState → Nat)
    (σs : List GuestState) (memory : M)
    (hσs : ∀ σ ∈ σs, σ.vr g.arch I.order w.rd = x ∧
      roundDown ((Machine.start memory σ).effective I g.arch w).address 16 = q ∧
      ((Machine.start memory σ).effective I g.arch w).address.toNat % 16 / width.bytes =
        element σ) :
    ∃ memory', ElementRun I g width x q (σs.map element) memory memory' := by
  induction σs generalizing memory with
  | nil => exact ⟨memory, .done memory⟩
  | cons σ σs ih =>
      obtain ⟨hvalue, haddress, helement⟩ := hσs σ List.mem_cons_self
      obtain ⟨-, hstores⟩ := hcodes.stores_element hopcode hwidth hI hshifts hview
      obtain ⟨m', hrun, -⟩ := hstores #[] (.start memory σ)
      obtain ⟨memory', hrest⟩ := ih m'.memory fun σ hσ => hσs σ (List.mem_cons_of_mem _ hσ)
      refine ⟨memory', ?_⟩
      rw [List.map_cons, ← helement]
      exact .store hcodes hopcode hwidth hvalue haddress hrun hrest

/-- Accepted stores and loads of vectors end behind the instruction. A store of a whole vector
writes it at the quadword of its address. A store of an element writes the bytes of the element's
size at the address rounded down and no others: each is the byte that a store of the whole vector
would write there on a big-endian host, and at the place of the mirrored element on a little-endian
one. So a load behind stores of all elements reads the vector back on a big-endian host, and with
its elements in reverse order on a little-endian one. -/
theorem Guest.vector_transfers (hI : I.Modular) (hshifts : I.Shifts) (hview : I.Bytewise view) :
    (∀ (w : Insn) (l : Lifted) (ss : List Stmt), g.Codes w l ss → w.opcode = 31 →
      w.IsVectorStore → l = ⟨4, .continue, none⟩ ∧ ∀ types m, ∃ m',
        runAll I types ss m = .behind m' ∧ StoresVector I view g.arch g.host w m m') ∧
    (∀ (w : Insn) (l : Lifted) (ss : List Stmt) (width : Narrow), g.Codes w l ss → w.opcode = 31 →
      w.elementWidth? = some width → l = ⟨4, .continue, none⟩ ∧ ∀ types m, ∃ m',
        runAll I types ss m = .behind m' ∧
          StoresElement I view g.arch g.host width.bytes w m m') ∧
    ∀ (width : Narrow) (x : BitVec 128) (q : BitVec 64) (elements : List Nat) (memory memory' : M),
      ElementRun I g width x q elements memory memory' →
      (∀ e < 16 / width.bytes, e ∈ elements) →
      (∀ a, ¬(a - q).toNat < 16 → view memory' a = view memory a) ∧
      ∀ (w : Insn) (l : Lifted) (ss : List Stmt), g.Codes w l ss → w.opcode = 31 →
        w.IsVectorLoad → ∀ types m, m.memory = memory' →
        roundDown (m.effective I g.arch w).address 16 = q → ∃ m',
          runAll I types ss m = .behind m' ∧
          (g.host = .big → m'.state.vr g.arch I.order w.rd = x) ∧
          (g.host = .little → ∀ e < 16 / width.bytes,
            lane width.bytes (m'.state.vr g.arch I.order w.rd) e =
              lane width.bytes x (16 / width.bytes - 1 - e)) := by
  refine ⟨fun w l ss hcodes hopcode hstore => hcodes.stores_vector hopcode hstore hI hview,
    fun w l ss width hcodes hopcode hwidth =>
      hcodes.stores_element hopcode hwidth hI hshifts hview, ?_⟩
  intro width x q elements memory memory' hstored hall
  refine ⟨fun a ha => ?_, fun w l ss hcodes hopcode hload types m hm hquad => ?_⟩
  · rw [hstored.memory_eq hI hshifts hview, if_neg fun h => ha h.1]
  · obtain ⟨-, hloads⟩ := hcodes.loads_vector hopcode hload hI hview
    obtain ⟨m', hrun, hloaded⟩ := hloads types m
    have hread : m'.state.vr g.arch I.order w.rd = (view memory').read g.host q .v128 := by
      rw [hloaded.state, hm, hquad]
      exact GuestState.vr_withVr _ _ _ _ _
    obtain ⟨hbig, hlittle⟩ := hstored.read_eq hall hI hshifts hview
    refine ⟨m', hrun, fun hhost => ?_, fun hhost => ?_⟩
    · rw [hread, hhost]
      exact hbig hhost
    · rw [hread, hhost]
      exact hlittle hhost

end

namespace Guest

/-- A processor with vectors, in a host of a byte order. -/
def vectors (host : ByteOrder) : Guest :=
  { arch := .ppc64, host, info := { caps := ⟨Capability.ppc64V.mask⟩ } }

/-- A record with the bytes 1 to 16 in vector register 4, and in general register 5 the address of a
word in the quadword at 4096. -/
def vectorState (order : ByteOrder) (e : Nat) : GuestState := fun o =>
  if o = 40 + order.position 8 0 then .ofNat 8 (4 * e)
  else if o = 40 + order.position 8 1 then 0x10
  else .ofNat 8 (o - 831)

/-- A vector is stored word by word on a big-endian host, and read back. -/
theorem vector_transfers_words :
    ∃ ss memory' m', ElementRun (.bytewise .big) (vectors .big) .w32
        0x0102030405060708090A0B0C0D0E0F10 0x1000 [2, 0, 3, 1] ⟨fun _ => 0, false⟩ memory' ∧
      (vectors .big).Codes ⟨0x7CC028CE⟩ ⟨4, .continue, none⟩ ss ∧
      runAll (.bytewise .big) #[] ss (.start memory' (vectorState .big 0)) = .behind m' ∧
      m'.state.vr .ppc64 .big 6 = 0x0102030405060708090A0B0C0D0E0F10 := by
  have hI := Interp.bytewise_modular .big
  have hshifts := Interp.bytewise_shifts .big
  have hview := Interp.bytewise_bytewise .big
  let store : ByteArray := ⟨#[0x7C, 0x80, 0x29, 0x8E]⟩
  let load : ByteArray := ⟨#[0x7C, 0xC0, 0x28, 0xCE]⟩
  have hstore : ((vectors .big).lift store 0 0x1000 0x1000 (.empty 1280)).result =
      .ok ⟨4, .continue, none⟩ := by decide +kernel
  have hload : ((vectors .big).lift load 0 0x1000 0x1000 (.empty 1280)).result =
      .ok ⟨4, .continue, none⟩ := by decide +kernel
  have hwidth : (⟨0x7C80298E⟩ : Insn).elementWidth? = some .w32 := by decide
  obtain ⟨memory', hstored⟩ := ElementRun.exists_of_states
    (x := 0x0102030405060708090A0B0C0D0E0F10) (q := 0x1000)
    (.of_lift (by decide) hstore rfl) (by decide) hwidth hI hshifts hview
    (fun σ => (σ 47).toNat / 4) ([2, 0, 3, 1].map (vectorState .big)) ⟨fun _ => 0, false⟩
    (by decide +kernel)
  obtain ⟨-, hloads⟩ := (vector_transfers hI hshifts hview).2.2 _ _ _ _ _ _ hstored (by decide)
  have hcodes := Codes.of_lift (g := vectors .big) (w := ⟨0x7CC028CE⟩) (by decide) hload rfl
  have hquad : roundDown ((Machine.start ⟨fun _ => 0, false⟩ (vectorState .big 0)).effective
      (.bytewise .big) .ppc64 ⟨0x7CC028CE⟩).address 16 = 0x1000 := by decide +kernel
  obtain ⟨m', hrun, hbig, -⟩ := hloads _ _ _ hcodes (by decide) (.inl (by decide)) #[]
    (.start memory' (vectorState .big 0)) rfl hquad
  exact ⟨_, memory', m', hstored, hcodes, hrun, hbig rfl⟩

/-- On a little-endian host, a store of a byte and one of the whole vector write different bytes at
the same address. -/
theorem vector_transfers_mirrored :
    ∃ ss ss' m₁ m₂, (vectors .little).Codes ⟨0x7C80290E⟩ ⟨4, .continue, none⟩ ss ∧
      (vectors .little).Codes ⟨0x7C8029CE⟩ ⟨4, .continue, none⟩ ss' ∧
      let start := Machine.start ⟨fun _ => 0, false⟩ (vectorState .little 0)
      runAll (.bytewise .little) #[] ss start = .behind m₁ ∧
      runAll (.bytewise .little) #[] ss' start = .behind m₂ ∧
      m₁.memory.bytes 0x1000 = 0x10 ∧ m₂.memory.bytes 0x1000 = 1 := by
  have hI := Interp.bytewise_modular .little
  have hview := Interp.bytewise_bytewise .little
  let byte : ByteArray := ⟨#[0x7C, 0x80, 0x29, 0x0E]⟩
  let whole : ByteArray := ⟨#[0x7C, 0x80, 0x29, 0xCE]⟩
  have hbyte : ((vectors .little).lift byte 0 0x1000 0x1000 (.empty 1280)).result =
      .ok ⟨4, .continue, none⟩ := by decide +kernel
  have hwhole : ((vectors .little).lift whole 0 0x1000 0x1000 (.empty 1280)).result =
      .ok ⟨4, .continue, none⟩ := by decide +kernel
  have hcodes := Codes.of_lift (g := vectors .little) (w := ⟨0x7C80290E⟩) (by decide) hbyte rfl
  have hcodes' := Codes.of_lift (g := vectors .little) (w := ⟨0x7C8029CE⟩) (by decide) hwhole rfl
  have hwidth : (⟨0x7C80290E⟩ : Insn).elementWidth? = some .w8 := by decide
  obtain ⟨-, hstores⟩ := hcodes.stores_element (by decide) hwidth hI
    (Interp.bytewise_shifts .little) hview
  obtain ⟨-, hstores'⟩ := hcodes'.stores_vector (by decide) (.inl (by decide)) hI hview
  obtain ⟨m₁, hrun₁, hstored₁⟩ := hstores #[] (.start ⟨fun _ => 0, false⟩ (vectorState .little 0))
  obtain ⟨m₂, hrun₂, hstored₂⟩ := hstores' #[] (.start ⟨fun _ => 0, false⟩ (vectorState .little 0))
  refine ⟨_, _, m₁, m₂, hcodes, hcodes', hrun₁, hrun₂, ?_, ?_⟩
  · exact (congrFun hstored₁.memory 0x1000).trans (by decide +kernel)
  · exact (congrFun hstored₂.memory 0x1000).trans (by decide +kernel)

end Guest

end PowerLift
