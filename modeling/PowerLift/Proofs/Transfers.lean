import PowerLift.Proofs.Branches
import PowerLift.Proofs.ConditionalStore
import PowerLift.Proofs.InstructionFields
import PowerLift.Proofs.IntegerForms

/-!
# Integer loads and stores

A load or store moves bytes between memory and a register, at an address that is known before
anything changes. The forms differ in width, extension, byte order and update, and agree in
everything else.
-/

namespace PowerLift

open Lift (exec)
open Point (Knows Has Step Since)
open PowerLift.Expr (un bin)

variable {M : Type} {I : Interp M} {env : Env} {c : Point M} {w : Insn}

/-! ## Numbers of any width -/

/-- A single byte has no other order. -/
theorem Ty.reversed_byte (x : BitVec 8) : Ty.reversed .i8 x = x :=
  GuestState.read_i8.trans (BitVec.extractLsb'_eq_self)

namespace Point.Has

variable {width : Width} {e : Expr}

/-- A narrow number is extended to a word. -/
theorem widen (hI : I.Scalar) (hwide : width = .w64 → env.arch = .ppc64)
    {x : BitVec width.ty.bits} (he : c.Has I e ⟨width.ty, x⟩) (signed : Bool) :
    ∃ e', exec env c.progress (Lift.widen e signed) = (.ok e', c.progress) ∧
      c.Has I e' ⟨env.arch.word.ty, if signed then x.signExtend _ else x.setWidth _⟩ := by
  have hword : exec env c.progress Lift.wordTy = (.ok env.arch.wordTy, c.progress) := rfl
  unfold Lift.widen
  rw [Lift.exec_bind, he.typeOf]
  simp only
  rw [Lift.exec_bind, hword]
  revert hwide
  cases env.arch <;> cases width <;> cases signed <;> intro hwide <;>
    first
    | exact ⟨_, rfl, he.un rfl (hI.extend _ rfl _ rfl x)⟩
    | exact ⟨_, rfl, he.un rfl (hI.cast _ rfl _ rfl x)⟩
    | exact ⟨_, rfl, he.congr (congrArg (Value.mk _) (BitVec.setWidth_eq x).symm)⟩
    | exact ⟨_, rfl, he.congr (congrArg (Value.mk _) (BitVec.signExtend_eq x).symm)⟩
    | cases hwide rfl

/-- A word is cut to a narrow number. -/
theorem narrow (hI : I.Bitwise) (hwide : width = .w64 → env.arch = .ppc64)
    {x : BitVec env.arch.word.ty.bits} (he : c.Has I e ⟨env.arch.word.ty, x⟩) :
    exec env c.progress (Lift.narrow e width.ty) =
        (.ok (narrowed env.arch width e), c.progress) ∧
      c.Has I (narrowed env.arch width e) ⟨width.ty, x.setWidth _⟩ := by
  refine ⟨exec_narrow hwide (Expr.typeOf_of_check (Stage.check_eq_ok.mp he.check_word).2),
    narrowed_check hwide he.check_word, ?_⟩
  have heval := he.eval
  revert hwide x
  cases env.arch <;> intro hwide x _ heval <;> exact narrowed_eval hI hwide heval

theorem reverseBytes (hI : I.Scalar) {x : BitVec width.ty.bits} (he : c.Has I e ⟨width.ty, x⟩) :
    c.Has I (LoadStore.reverseBytes width.ty e) ⟨width.ty, width.ty.reversed x⟩ := by
  cases width with
  | w8 =>
      exact he.congr (congrArg (Value.mk .i8) (Ty.reversed_byte x).symm)
  | w16 => exact he.un rfl (hI.reverse16 x)
  | w32 => exact he.un rfl (hI.reverse .w32 x)
  | w64 => exact he.un rfl (hI.reverse .w64 x)

end Point.Has

/-! ## Addresses -/

namespace LoadStore

/-- What is added to the base register. -/
inductive Offset where
  | disp (d : BitVec 64)
  | index

/-- The offset as a word. -/
def Offset.value (arch : Arch) (order : ByteOrder) (w : Insn) (σ : GuestState) :
    Offset → BitVec arch.word.ty.bits
  | disp d => d.setWidth _
  | index => σ.operand arch order w.rb

/-- The effective address. Register zero stands for the number zero unless it is to be updated. -/
def Offset.address (arch : Arch) (order : ByteOrder) (w : Insn) (update : Bool) (σ : GuestState)
    (o : Offset) : BitVec arch.word.ty.bits :=
  (if update = true ∨ w.ra ≠ 0 then σ.operand arch order w.ra else 0) + o.value arch order w σ

/-- The effective address as it is emitted. -/
def ea (w : Insn) (update : Bool) : Offset → Lift Expr
  | .disp d => if update then Lift.eaDisp w.ra d else Lift.eaOr0Disp w.ra d
  | .index => if update then Lift.eaIdx w.ra w.rb else Lift.eaOr0Idx w.ra w.rb

section

variable {p : Progress} (hlayout : env.layout = env.arch) {ra rb : Nat} (ha : ra < 32)

include hlayout ha

theorem exec_eaDisp (d : BitVec 64) : exec env p (Lift.eaDisp ra d) =
    (.ok (bin (.add env.arch.word.width) (.gpr env.arch ra) (env.imm d)), p) := by
  unfold Lift.eaDisp
  simp only [Lift.exec_bind, exec_getGpr hlayout ha]
  rfl

theorem exec_eaOr0Disp (d : BitVec 64) : exec env p (Lift.eaOr0Disp ra d) =
    (.ok (if ra = 0 then env.imm d
      else bin (.add env.arch.word.width) (.gpr env.arch ra) (env.imm d)), p) := by
  unfold Lift.eaOr0Disp
  by_cases hzero : ra = 0
  · simp only [if_pos hzero]
    rfl
  · simp only [if_neg hzero]
    exact exec_eaDisp hlayout ha d

theorem exec_eaIdx (hb : rb < 32) : exec env p (Lift.eaIdx ra rb) =
    (.ok (bin (.add env.arch.word.width) (.gpr env.arch ra) (.gpr env.arch rb)), p) := by
  unfold Lift.eaIdx
  simp only [Lift.exec_bind, exec_getGpr hlayout ha, exec_getGpr hlayout hb]
  rfl

end

theorem ea_knows (hI : I.Modular) (hlayout : env.layout = env.arch) (w : Insn) (update : Bool)
    (o : Offset) :
    ∃ e, exec env c.progress (ea w update o) = (.ok e, c.progress) ∧ c.Knows I (· = c.state) e
      ⟨env.arch.word.ty, o.address env.arch I.order w update c.state⟩ := by
  have hra : c.Knows I (· = c.state) (.gpr env.arch w.ra) _ := Point.knows_gpr env.arch w.ra
  have hrb : c.Knows I (· = c.state) (.gpr env.arch w.rb) _ := Point.knows_gpr env.arch w.rb
  unfold Offset.address ea
  cases o with
  | disp d =>
      have hd : c.Knows I (· = c.state) (env.imm d) _ := Point.knows_imm d
      dsimp only
      by_cases hupdate : update = true
      · rw [if_pos hupdate, if_pos (.inl hupdate)]
        exact ⟨_, exec_eaDisp hlayout w.ra_lt d, hra.add hd hI⟩
      · rw [if_neg hupdate, exec_eaOr0Disp hlayout w.ra_lt d]
        refine ⟨_, rfl, ?_⟩
        by_cases hzero : w.ra = 0
        · rw [if_pos hzero, if_neg (by simp [hupdate, hzero])]
          exact hd.congr (congrArg (Value.mk _) (BitVec.zero_add _).symm)
        · rw [if_neg hzero, if_pos (.inr hzero)]
          exact hra.add hd hI
  | index =>
      dsimp only
      by_cases hupdate : update = true
      · rw [if_pos hupdate, if_pos (.inl hupdate)]
        exact ⟨_, exec_eaIdx hlayout w.ra_lt w.rb_lt, hra.add hrb hI⟩
      · rw [if_neg hupdate, exec_eaOr0Idx hlayout w.ra_lt w.rb_lt]
        refine ⟨_, rfl, ?_⟩
        unfold Expr.indexed
        by_cases hzero : w.ra = 0
        · rw [if_pos hzero, if_neg (by simp [hupdate, hzero])]
          exact hrb.congr (congrArg (Value.mk _) (BitVec.zero_add _).symm)
        · rw [if_neg hzero, if_pos (.inr hzero)]
          exact hra.add hrb hI

theorem ds_eq (w : Insn) : BitVec.ofInt 64 w.ds = w.displacement 14 := by
  rw [Insn.displacement, ← w.setWidth_displacement]
  rfl

theorem dq_eq (w : Insn) : BitVec.ofInt 64 ((BitVec.ofNat 12 w.dq).toInt * 16) =
    (w.raw.extractLsb' 4 12 ++ 0#4).signExtend 64 := by
  have hfield : BitVec.ofNat 12 w.dq = w.raw.extractLsb' 4 12 := BitVec.ofNat_toNat ..
  rw [BitVec.signExtend, BitVec.toInt_append_zero, hfield, Int.mul_comm]
  rfl

/-! ## The transfers -/

/-- What a load or store of one register does. -/
structure Move where
  width : Width
  store : Bool := false
  signed : Bool := false
  update : Bool := false
  reversed : Bool := false
  deriving DecidableEq

namespace Move

/-- The transfer that the instruction table has for an access. -/
def transfer (x : Move) (name : String) : Transfer where
  name
  ty := x.width.ty
  store := x.store
  signed := x.signed
  update := x.update
  reversed := x.reversed

/-- The order of the bytes in memory. -/
def order (x : Move) (host : ByteOrder) : ByteOrder := if x.reversed then host.opposite else host

/-- Accesses that only a 64-bit processor has. -/
def Wide (x : Move) : Prop := x.width = .w64 ∨ (x.width = .w32 ∧ x.signed = true)

/-- Updates that have no meaning: without a base register, or with the result in it. -/
def Clashes (x : Move) (w : Insn) : Prop :=
  x.update = true ∧ (w.ra = 0 ∨ (x.store = false ∧ w.ra = w.rd))

instance (x : Move) : Decidable x.Wide := inferInstanceAs (Decidable (_ ∨ _))

instance (x : Move) (w : Insn) : Decidable (x.Clashes w) := inferInstanceAs (Decidable (_ ∧ _))

section

variable (x : Move) (env : Env) (order : ByteOrder) (w : Insn)
  (a : BitVec env.arch.word.ty.bits) (bytes : ByteMemory) (σ : GuestState)

/-- The value that is loaded, extended to a word. -/
def loaded : BitVec env.arch.word.ty.bits :=
  let v := bytes.read (x.order env.host) (a.setWidth 64) x.width.ty
  if x.signed then v.signExtend _ else v.setWidth _

/-- Memory behind the access. -/
def bytesAfter : ByteMemory :=
  if x.store then
    bytes.write (x.order env.host) (a.setWidth 64)
      ⟨x.width.ty, (σ.operand env.arch order w.rd).setWidth _⟩
  else bytes

/-- The target register holds what was loaded, and an updated register holds the address. -/
def stateAfter : GuestState :=
  let σ' := if x.store then σ else σ.withOperand env.arch order w.rd (x.loaded env a bytes)
  if x.update then σ'.withOperand env.arch order w.ra a else σ'

end

/-- An access to an address leaves so. A load does not touch memory. -/
structure Done (x : Move) (env : Env) (I : Interp M) (view : M → ByteMemory) (w : Insn)
    (a : BitVec env.arch.word.ty.bits) (memory : M) (σ : GuestState) (out : Left M) : Prop where
  pc : out.pc = env.nia
  kind : out.kind = .boring
  bytes : view out.memory = x.bytesAfter env I.order w a (view memory) σ
  loads : x.store = false → out.memory = memory
  state : out.state = x.stateAfter env I.order w a (view memory) σ

theorem Done.eq_of_load {x : Move} {view : M → ByteMemory} {a : BitVec env.arch.word.ty.bits}
    {memory : M} {σ : GuestState} {out : Left M} (h : x.Done env I view w a memory σ out)
    (hload : x.store = false) :
    out = ⟨env.nia, .boring, memory, x.stateAfter env I.order w a (view memory) σ⟩ := by
  obtain ⟨hpc, hkind, -, hloads, hstate⟩ := h
  rw [← hpc, ← hkind, ← hstate, ← hloads hload]

end Move

section

variable {x : Move} {name : String} {e : Expr} {view : M → ByteMemory}

theorem update_comes (hlayout : env.layout = env.arch) {a : BitVec env.arch.word.ty.bits}
    (he : c.Has I e ⟨env.arch.word.ty, a⟩) (hnext : c.progress.next = .continue) (update : Bool) :
    Comes env I c (if update then Lift.putGpr w.ra e else pure ()) False fun next flow =>
      next = .continue ∧ env.leave I next flow = ⟨env.nia, .boring, c.memory,
        if update then c.state.withOperand env.arch I.order w.ra a else c.state⟩ := by
  cases update with
  | true =>
      refine .last (.putGpr hlayout w.ra_lt he fun c' _ hstate hmemory => ?_)
      rw [← hmemory, if_pos rfl, ← hstate]
      exact .done (Since.next_eq hnext) ⟨rfl, rfl⟩
  | false => exact .done hnext ⟨rfl, rfl⟩

theorem clashes_comes {what what' : String} {f : Unit → Lift Unit} {φ : Prop}
    {Q : Continuation → Flow M → Prop} (hf : Comes env I c (f ()) φ Q) :
    Comes env I c (if x.update then
        Lift.invalidIf w (w.ra == 0) what >>= fun _ =>
          Lift.invalidIf w (!x.store && w.ra == w.rd) what' >>= f
      else f ()) (x.Clashes w ∨ φ) Q := by
  unfold Move.Clashes
  by_cases hupdate : x.update = true
  · rw [if_pos hupdate]
    refine (Comes.guard (Lift.invalidIf_refuses w _ _) fun _ => .guard
      (Lift.invalidIf_refuses w _ _) fun _ => hf).congr ?_
    simp [hupdate, or_assoc]
  · rw [if_neg hupdate]
    exact hf.congr (by simp [hupdate])

theorem ordered_has (hI : I.Scalar) {v : BitVec x.width.ty.bits}
    (he : c.Has I e ⟨x.width.ty, v⟩) :
    c.Has I (if x.reversed then reverseBytes x.width.ty e else e)
      ⟨x.width.ty, if x.reversed then x.width.ty.reversed v else v⟩ := by
  cases x.reversed with
  | true => exact he.reverseBytes hI
  | false => exact he

theorem Move.width_ne_i1 (x : Move) : x.width.ty ≠ .i1 := by
  cases x.width <;> decide

/-- An access is done when its register, if it is to be updated, is written last. -/
theorem done_comes {memory : M} {σ : GuestState} (hlayout : env.layout = env.arch)
    {a : BitVec env.arch.word.ty.bits} (he : c.Has I e ⟨env.arch.word.ty, a⟩)
    (hnext : c.progress.next = .continue)
    (hbytes : view c.memory = x.bytesAfter env I.order w a (view memory) σ)
    (hloads : x.store = false → c.memory = memory)
    (hstate : c.state = if x.store then σ else
      σ.withOperand env.arch I.order w.rd (x.loaded env a (view memory))) :
    Comes env I c (if x.update then Lift.putGpr w.ra e else pure ()) False fun next flow =>
      next = .continue ∧ x.Done env I view w a memory σ (env.leave I next flow) := by
  refine (update_comes hlayout he hnext x.update).mono Iff.rfl fun next flow hleft => ?_
  refine ⟨hleft.1, ?_⟩
  rw [hleft.2, hstate]
  exact ⟨rfl, rfl, hbytes, hloads, rfl⟩

section

variable (hI : I.Scalar) (hview : I.Bytewise view) (hlayout : env.layout = env.arch)
  (hwide : x.width = .w64 → env.arch = .ppc64) {a : BitVec env.arch.word.ty.bits}
  (he : ∀ {S}, c.Knows I S e ⟨env.arch.word.ty, a⟩) (hnext : c.progress.next = .continue)

include hI hview hlayout hwide he hnext

theorem store_comes (hstore : x.store = true) :
    Comes env I c (do
      let v ← Lift.getGpr w.rd
      let v ← Lift.narrow v x.width.ty
      Lift.store e (if x.reversed then reverseBytes x.width.ty v else v)
      if x.update then Lift.putGpr w.ra e else pure ()) False fun next flow =>
        next = .continue ∧ x.Done env I view w a c.memory c.state (env.leave I next flow) := by
  have hdata : c.Has I (.gpr env.arch w.rd) ⟨_, c.state.operand env.arch I.order w.rd⟩ :=
    (Point.knows_gpr env.arch w.rd).has rfl
  obtain ⟨hexec, hnarrow⟩ := hdata.narrow hI.toBitwise hwide
  refine .give (exec_getGpr hlayout w.rd_lt) (.give hexec ?_)
  refine .store he.always (ordered_has hI hnarrow) x.width_ne_i1 fun c' _ hstate hmemory => ?_
  refine done_comes hlayout he.since.always (Since.next_eq hnext) ?_ ?_ ?_
  · rw [hmemory, hview.store _ _ _ _ x.width_ne_i1, Move.bytesAfter, if_pos hstore]
    cases hreversed : x.reversed with
    | true =>
        rw [Move.order, hreversed]
        exact ByteMemory.write_reversed x.width_ne_i1 _
    | false =>
        rw [Move.order, hreversed]
        rfl
  · exact fun hload => absurd hstore (by simp [hload])
  · rw [hstate, if_pos hstore]

theorem load_comes (hload : x.store = false) :
    Comes env I c (do
      let v ← Lift.load x.width.ty e
      let v ← Lift.widen (if x.reversed then reverseBytes x.width.ty v else v) x.signed
      Lift.putGpr w.rd v
      if x.update then Lift.putGpr w.ra e else pure ()) False fun next flow =>
        next = .continue ∧ x.Done env I view w a c.memory c.state (env.leave I next flow) := by
  have hnot : ¬x.store = true := by simp [hload]
  have hloaded := he.always.load hview env.host x.width_ne_i1
  have horder : (if x.reversed then x.width.ty.reversed
        ((view c.memory).read env.host (a.setWidth 64) x.width.ty)
      else (view c.memory).read env.host (a.setWidth 64) x.width.ty) =
        (view c.memory).read (x.order env.host) (a.setWidth 64) x.width.ty := by
    cases hreversed : x.reversed with
    | true =>
        rw [Move.order, hreversed]
        exact ByteMemory.read_reversed x.width_ne_i1
    | false =>
        rw [Move.order, hreversed]
        rfl
  have hordered := ordered_has hI hloaded
  rw [horder] at hordered
  obtain ⟨e', hexec, hwidened⟩ := hordered.widen hI hwide x.signed
  refine .give rfl (.give hexec ?_)
  refine .putGpr hlayout w.rd_lt hwidened fun c' _ hstate hmemory => ?_
  refine done_comes hlayout he.since.always (Since.next_eq hnext) ?_ (fun _ => hmemory) ?_
  · rw [hmemory, Move.bytesAfter, if_neg hnot]
  · rw [hstate, if_neg hnot]
    rfl

end

theorem emit_comes (hI : I.Scalar) (hview : I.Bytewise view) (hlayout : env.layout = env.arch)
    {a : BitVec env.arch.word.ty.bits} (he : c.Has I e ⟨env.arch.word.ty, a⟩)
    (hnext : c.progress.next = .continue) :
    Comes env I c (emit w (x.transfer name) e) ((x.Wide ∧ env.arch = .ppc32) ∨ x.Clashes w ∨ False)
      fun next flow => next = .continue ∧
        x.Done env I view w a c.memory c.state (env.leave I next flow) := by
  unfold emit
  have hwide : x.Wide ↔ x.width.ty = .i64 ∨ x.width.ty = .i32 ∧ x.signed = true := by
    unfold Move.Wide
    cases x.width <;> simp [Width.ty]
  rw [hwide]
  refine .guardWhen (fun _ => Lift.needMode64_refuses w _) fun hmode => clashes_comes ?_
  refine .bind he fun t c' _ hstate hmemory ht => ?_
  rw [← hmemory, ← hstate]
  have hdouble : x.width = .w64 → env.arch = .ppc64 := by
    intro hw
    cases harch : env.arch with
    | ppc32 => exact absurd ⟨hwide.mp (.inl hw), harch⟩ hmode
    | ppc64 => rfl
  cases hstore : x.store with
  | true =>
      simp only [Move.transfer, hstore, if_true]
      exact store_comes hI hview hlayout hdouble ht (Since.next_eq hnext) hstore
  | false =>
      simp only [Move.transfer, hstore, Bool.false_eq_true, if_false]
      exact load_comes hI hview hlayout hdouble ht (Since.next_eq hnext) hstore

theorem move_comes (w : Insn) (x : Move) (name : String) (hI : I.Scalar) (hview : I.Bytewise view)
    (hlayout : env.layout = env.arch) (hnext : c.progress.next = .continue) (o : Offset)
    (line : String) :
    Comes env I c (do
      Lift.listed line
      let e ← ea w x.update o
      emit w (x.transfer name) e) ((x.Wide ∧ env.arch = .ppc32) ∨ x.Clashes w ∨ False)
      fun next flow => next = .continue ∧
        x.Done env I view w (o.address env.arch I.order w x.update c.state) c.memory c.state
          (env.leave I next flow) := by
  refine .listed fun c' _ hmachine => ?_
  have hstate : c'.state = c.state := congrArg Machine.state hmachine
  have hmemory : c'.memory = c.memory := congrArg Machine.memory hmachine
  rw [← hstate, ← hmemory]
  obtain ⟨e, hexec, he⟩ := ea_knows (c := c') hI.toModular hlayout w x.update o
  exact .give hexec (emit_comes hI hview hlayout (he.has rfl) (Since.next_eq hnext))

theorem displaced_eq (w : Insn) (x : Move) (name : String) (disp : Int) :
    ∃ line, displaced w (x.transfer name) disp = (do
      Lift.listed line
      let e ← ea w x.update (.disp (.ofInt 64 disp))
      emit w (x.transfer name) e) := by
  unfold displaced ea
  cases hupdate : x.update with
  | true =>
      simp only [Move.transfer, hupdate, if_true]
      exact ⟨_, rfl⟩
  | false =>
      simp only [Move.transfer, hupdate, Bool.false_eq_true, if_false]
      exact ⟨_, rfl⟩

theorem indexed_eq (hrow : Transfer.ofIndexed? w.xo10 = some (x.transfer name)) :
    ∃ what line, indexed w = Lift.reservedClear w w.record what >>= fun _ => (do
      Lift.listed line
      let e ← ea w x.update .index
      emit w (x.transfer name) e) := by
  unfold indexed ea
  rw [hrow]
  cases hupdate : x.update with
  | true =>
      simp only [Move.transfer, hupdate, if_true]
      exact ⟨_, _, rfl⟩
  | false =>
      simp only [Move.transfer, hupdate, Bool.false_eq_true, if_false]
      exact ⟨_, _, rfl⟩

end

end LoadStore

end PowerLift
