import PowerLift.Proofs.Filling
import PowerLift.Proofs.Outcomes
import PowerLift.Proofs.Routes
import PowerLift.Proofs.SpecialRegisters

/-!
# Moves of special-purpose registers

Two instructions move a special-purpose register to and from a general register. A number that
names no register, or none that can be written, is refused. The time base is not part of the guest
state; its value comes from a call.
-/

namespace PowerLift

open Layout (specialOffset)
open Lift (exec)
open Point (Knows Has Step Since)
open PowerLift.Expr (un bin)
open PowerLift.System (Special Source source? destination?)

variable {M : Type} {I : Interp M} {env : Env} {c : Point M} {w : Insn}

/-! ## Widths -/

/-- What a function of any width gives for a value whose type is known. -/
theorem Ty.apply_setWidth {τ τ' : Ty} (h : τ = τ') (x : BitVec τ.bits) {α : Type}
    (f : (n : Nat) → BitVec n → α) : f τ'.bits (x.setWidth _) = f τ.bits x := by
  subst h
  exact congrArg (f _) (BitVec.setWidth_eq x)

theorem Value.mk_setWidth {τ τ' : Ty} (h : τ = τ') (x : BitVec τ.bits) :
    (⟨τ, x⟩ : Value) = ⟨τ', x.setWidth _⟩ := by
  subst h
  exact congrArg (Value.mk τ) (BitVec.setWidth_eq x).symm

theorem Value.setWidth_mk {τ τ' : Ty} (h : τ = τ') {n : Nat} (x : BitVec n) :
    (⟨τ, x.setWidth _⟩ : Value) = ⟨τ', x.setWidth _⟩ := by
  subst h
  rfl

/-- A word as 64 bits. -/
theorem Point.Knows.to64 (hI : I.Bitwise) {S : GuestState → Prop} {e : Expr}
    {x : BitVec env.arch.word.ty.bits} (he : c.Knows I S e ⟨env.arch.word.ty, x⟩) :
    c.Knows I S (env.to64 e false) ⟨.i64, x.setWidth 64⟩ := by
  revert x he
  cases env with
  | mk arch =>
      cases arch with
      | ppc32 =>
          intro x he
          exact he.un rfl (hI.cast .zext32to64 rfl .i32 rfl x)
      | ppc64 =>
          intro x he
          exact he.congr (congrArg (Value.mk .i64) (BitVec.setWidth_eq x).symm)

/-- 64 bits cut to a word. -/
def System.cutDouble (arch : Arch) (e : Expr) : Expr :=
  if arch.is64 then e else un (.cast .low64to32) e

theorem System.exec_ofDoubleword (p : Progress) (e : Expr) :
    exec env p (ofDoubleword e) = (.ok (cutDouble env.arch e), p) := by
  change exec env p (if env.arch.is64 then pure e else pure (un (.cast .low64to32) e)) = _
  rw [cutDouble]
  split <;> rfl

theorem Point.Knows.cutDouble (hI : I.Bitwise) {S : GuestState → Prop} {e : Expr} (arch : Arch)
    {x : BitVec 64} (he : c.Knows I S e ⟨.i64, x⟩) :
    c.Knows I S (System.cutDouble arch e) ⟨arch.word.ty, x.setWidth _⟩ := by
  cases arch with
  | ppc32 => exact he.un rfl (hI.cast .low64to32 rfl .i64 rfl x)
  | ppc64 => exact he.congr (congrArg (Value.mk .i64) (BitVec.setWidth_eq x).symm)

/-! ## Steps -/

theorem Point.knows_slot {σ : GuestState} (arch : Arch) (s : SpecialSlot) :
    c.Knows I (· = σ) (.get (specialOffset arch s) (s.ty arch))
      ⟨s.ty arch, σ.held arch I.order s⟩ where
  check := rfl
  eval _ _ hm := hm ▸ rfl

/-- Bits of a byte that is kept in a slot. -/
theorem Point.knows_masked (hI : I.Bitwise) (arch : Arch) {s : SpecialSlot} (hs : s.ty arch = .i8)
    (mask : BitVec 8) :
    c.Knows I (· = c.state) (bin .and8 (.get (specialOffset arch s) (s.ty arch)) (.u8 mask))
      (.i8 (c.state (specialOffset arch s) &&& mask)) := by
  have hbyte : c.Knows I (· = c.state) (.get (specialOffset arch s) (s.ty arch))
      (.i8 (c.state (specialOffset arch s))) := by
    rw [hs]
    exact ⟨rfl, fun m _ hm => hm ▸ congrArg (Value.mk .i8) GuestState.read_i8⟩
  exact hbyte.bin (.const (.u8 mask)) rfl (hI.and .w8 _ _)

theorem exec_getSpecialSlot {p : Progress} (s : SpecialSlot) :
    exec env p (Lift.getSlot s) =
      (.ok (.get (specialOffset env.layout s) (s.ty env.layout)), p) :=
  Lift.exec_getSlot (q := ⟨specialOffset env.layout s, s.ty env.layout⟩) rfl

/-- A slot is given another value. -/
theorem Comes.putHeld (hlayout : env.layout = env.arch) {s : SpecialSlot} {e : Expr} {v : Value}
    {x : BitVec (s.ty env.arch).bits} (he : c.Has I e v) (hv : v = ⟨s.ty env.arch, x⟩)
    {f : Unit → Lift Unit} {φ : Prop} {Q : Continuation → Flow M → Prop}
    (hf : ∀ c' [Step c c'], c'.state = c.state.holding env.arch I.order s x →
      c'.memory = c.memory → Comes env I c' (f ()) φ Q) :
    Comes env I c (Lift.putSlot s e >>= f) φ Q := by
  subst hv
  have hplace : Layout.locate env.layout s = .ok ⟨specialOffset env.arch s, s.ty env.arch⟩ := by
    rw [hlayout]
    rfl
  exact .put hplace he rfl hf

/-- Bits of a byte are written, and the others cleared. -/
theorem Comes.putMasked (hI : I.Bitwise) (hlayout : env.layout = env.arch) {s : SpecialSlot}
    (hs : s.ty env.arch = .i8) {e : Expr} {x : BitVec 8} (he : c.Has I e ⟨.i8, x⟩)
    (mask : BitVec 8) {f : Unit → Lift Unit} {φ : Prop} {Q : Continuation → Flow M → Prop}
    (hf : ∀ c' [Step c c'],
      c'.state = Function.update c.state (specialOffset env.arch s) (x &&& mask) →
      c'.memory = c.memory → Comes env I c' (f ()) φ Q) :
    Comes env I c (Lift.putMasked s mask e >>= f) φ Q := by
  have hplace : Layout.locate env.layout s = .ok ⟨specialOffset env.arch s, .i8⟩ := by
    rw [hlayout, ← hs]
    rfl
  have hcut := he.bin (Knows.const (.u8 mask)).always rfl (hI.and .w8 x mask)
  refine .put hplace hcut rfl fun c' _ hstate hmemory => hf c' ?_ hmemory
  rw [hstate]
  exact GuestState.write_flag _ _

namespace System

/-- The code that reads a register. -/
def reading : Source → Lift Expr
  | .stored .xer => do Lift.widen (← Lift.getXer) false
  | .stored (.word s) => Lift.getSlot s
  | .stored (.narrow s) => do Lift.widen (← Lift.getSlot s) false
  | .stored (.wide s) => do ofDoubleword (← Lift.getSlot s)
  | .stored (.upper s) => do ofDoubleword (bin .shr64 (← Lift.getSlot s) (.u8 32))
  | .timeBase upper => timeBase upper

theorem readSpecial_eq (w : Insn) :
    ∃ line, readSpecial w = Lift.reservedClear w w.record "mfspr bit 31" >>= fun _ =>
      Lift.listed line >>= fun _ =>
        (source? w.spr).elim (Lift.unrecognized w "mfspr SPR") reading >>= fun e =>
          Lift.bind e >>= Lift.putGpr w.rd := by
  unfold readSpecial
  cases source? w.spr with
  | none => exact ⟨_, rfl⟩
  | some y =>
      cases y with
      | timeBase => exact ⟨_, rfl⟩
      | stored x => cases x <;> exact ⟨_, rfl⟩

/-- The code that writes a register. -/
def writing (x : Special) (e : Expr) : Lift Unit :=
  match x with
  | .xer => do Lift.putXer (← Lift.low32 e)
  | .word s => Lift.putSlot s e
  | .narrow s => do Lift.putSlot s (← Lift.low32 e)
  | .wide s => do Lift.putSlot s (← Lift.to64 e false)
  | .upper s => do
      let hi := bin .shl64 (← Lift.to64 e false) (.u8 32)
      Lift.putSlot s (bin .or64 hi (bin .and64 (← Lift.getSlot s) (.u64 0xFFFFFFFF)))

theorem writeSpecial_eq (w : Insn) :
    ∃ line, writeSpecial w = Lift.reservedClear w w.record "mtspr bit 31" >>= fun _ =>
      Lift.listed line >>= fun _ => Lift.getGpr w.rs >>= fun e => Lift.bind e >>= fun e =>
        (destination? w.spr).elim (Lift.unrecognized w "mtspr SPR") (writing · e) := by
  unfold writeSpecial
  cases destination? w.spr with
  | none => exact ⟨_, rfl⟩
  | some x => cases x <;> exact ⟨_, rfl⟩

variable {x : Special}

/-- A byte of the exception register in its place. -/
theorem knows_xerBits (hI : I.Bitwise) (arch : Arch) (s : SpecialSlot) (mask : BitVec 8)
    (hs : s.ty arch = .i8) :
    c.Knows I (· = c.state)
      (un (.cast .zext8to32) (bin .and8 (.get (specialOffset arch s) (s.ty arch)) (.u8 mask)))
      ⟨.i32, (c.state (specialOffset arch s) &&& mask).setWidth 32⟩ :=
  (Point.knows_masked hI arch hs mask).un rfl (hI.cast .zext8to32 rfl .i8 rfl _)

/-- The exception register is put together. -/
theorem getXer_knows (hI : I.Bitwise) (hlayout : env.layout = env.arch) (c : Point M) :
    ∃ e, exec env c.progress Lift.getXer = (.ok e, c.progress) ∧
      c.Knows I (· = c.state) e ⟨.i32, c.state.xer env.arch⟩ := by
  have hflag (s : SpecialSlot) (hs : s.ty env.arch = .i8) (k : BitVec 8) (hk : k.toNat < 32) :=
    (knows_xerBits (c := c) hI env.arch s 1 hs).bin (.const (.u8 k)) rfl (hI.shl .w32 _ k hk)
  refine ⟨_, rfl, ?_⟩
  rw [hlayout]
  have hupper := (hflag .xerSo rfl 31 (by decide)).bin (hflag .xerOv rfl 30 (by decide)) rfl
    (hI.or .w32 _ _)
  have hlower := (hflag .xerCa rfl 29 (by decide)).bin (knows_xerBits hI env.arch .xerBc 0x7F rfl)
    rfl (hI.or .w32 _ _)
  exact hupper.bin hlower rfl (hI.or .w32 _ _)

/-- What is read of a register that is stored. -/
theorem reading_knows (hI : I.Integral) (hlayout : env.layout = env.arch) (hx : x.Fits env.arch)
    (c : Point M) :
    ∃ e, exec env c.progress (reading (.stored x)) = (.ok e, c.progress) ∧
      c.Knows I (· = c.state) e ⟨env.arch.word.ty, x.keeping.value env.arch I.order c.state⟩ := by
  have hget (s : SpecialSlot) : exec env c.progress (Lift.getSlot s) = (.ok _, c.progress) :=
    exec_getSpecialSlot s
  have hslot (s : SpecialSlot) {τ : Ty} (hs : s.ty env.arch = τ) :
      c.Knows I (· = c.state) (.get (specialOffset env.layout s) (s.ty env.layout))
        ⟨τ, (c.state.held env.arch I.order s).setWidth _⟩ := by
    rw [hlayout]
    exact (Point.knows_slot env.arch s).congr (Value.mk_setWidth hs _)
  cases x with
  | xer =>
      obtain ⟨e, hexec, he⟩ := getXer_knows hI.toBitwise hlayout c
      refine ⟨_, ?_, he.widened hI env.arch false⟩
      rw [reading, Lift.exec_bind, hexec]
      exact exec_widened he false
  | word s => exact ⟨_, hget s, hslot s hx⟩
  | narrow s =>
      refine ⟨_, ?_, ((hslot s hx).widened hI env.arch false).congr ?_⟩
      · rw [reading, Lift.exec_bind, hget]
        exact exec_widened (hslot s hx) false
      · exact congrArg (Value.mk _) (Ty.apply_setWidth hx _ fun _ => BitVec.setWidth _)
  | wide s =>
      refine ⟨_, ?_, ((hslot s hx).cutDouble hI.toBitwise env.arch).congr ?_⟩
      · rw [reading, Lift.exec_bind, hget]
        exact exec_ofDoubleword _ _
      · exact congrArg (Value.mk _) (Ty.apply_setWidth hx _ fun _ => BitVec.setWidth _)
  | upper s =>
      have hshift := (hslot s hx).bin (.const (.u8 32)) rfl (hI.shr .w64 _ 32 (by decide))
      refine ⟨_, ?_, (hshift.cutDouble hI.toBitwise env.arch).congr ?_⟩
      · rw [reading, Lift.exec_bind, hget]
        exact exec_ofDoubleword _ _
      · exact congrArg (Value.mk _) (Ty.apply_setWidth hx _ fun _ y => (y >>> 32).setWidth _)

/-- The exception register is taken apart. -/
theorem putXer_comes (hI : I.Bitwise) (hlayout : env.layout = env.arch) {e : Expr} {v : BitVec 32}
    (he : c.Has I e ⟨.i32, v⟩) {f : Unit → Lift Unit} {φ : Prop}
    {Q : Continuation → Flow M → Prop}
    (hf : ∀ c' [Since c c'], c'.state = c.state.withXer env.arch v → c'.memory = c.memory →
      Comes env I c' (f ()) φ Q) :
    Comes env I c (Lift.putXer e >>= f) φ Q := by
  unfold Lift.putXer
  simp only [bind_assoc]
  refine .bind he fun t c₁ _ hstate₁ hmemory₁ ht => ?_
  have hflag (k : BitVec 8) (hk : k.toNat < 32) {S : GuestState → Prop} :=
    (ht.bin (.const (.u8 k)) rfl (hI.shr .w32 v k hk) (S := S)).un rfl
      (hI.cast .low32to8 rfl .i32 rfl _)
  refine .putMasked hI hlayout rfl (hflag 31 (by decide)).always 1 fun c₂ _ hstate₂ hmemory₂ => ?_
  refine .putMasked hI hlayout rfl (hflag 30 (by decide)).since.always 1
    fun c₃ _ hstate₃ hmemory₃ => ?_
  refine .putMasked hI hlayout rfl (hflag 29 (by decide)).since.always 1
    fun c₄ _ hstate₄ hmemory₄ => ?_
  have hlow := ht.un rfl (hI.cast .low32to8 rfl .i32 rfl v) (S := fun _ => True)
  refine .putMasked hI hlayout rfl hlow.since.always 0x7F fun c₅ _ hstate₅ hmemory₅ => hf c₅ ?_ ?_
  · rw [hstate₅, hstate₄, hstate₃, hstate₂, hstate₁]
    rfl
  · rw [hmemory₅, hmemory₄, hmemory₃, hmemory₂, hmemory₁]

/-- A word moved up beside the low word of another value. -/
theorem shift_or_low {n : Nat} (x : BitVec n) (old : BitVec 64) :
    x.setWidth 64 <<< 32 ||| (old &&& 0xFFFFFFFF) = x.setWidth 32 ++ old.setWidth 32 := by
  have hmask (i : Nat) : (0xFFFFFFFF : BitVec 64).getLsbD i = decide (i < 32) := by
    rw [show (0xFFFFFFFF : BitVec 64) = (BitVec.allOnes 32).setWidth 64 from rfl,
      BitVec.getLsbD_setWidth, BitVec.getLsbD_allOnes]
    grind
  apply BitVec.eq_of_getLsbD_eq
  intro i hi
  simp only [BitVec.getLsbD_or, BitVec.getLsbD_and, BitVec.getLsbD_shiftLeft,
    BitVec.getLsbD_append, BitVec.getLsbD_setWidth, hmask]
  grind

/-- A register is written. -/
theorem writing_comes (hI : I.Integral) (hlayout : env.layout = env.arch) (hx : x.Fits env.arch)
    {e : Expr} {y : BitVec env.arch.word.ty.bits}
    (he : ∀ {S}, c.Knows I S e ⟨env.arch.word.ty, y⟩) (hnext : c.progress.next = .continue) :
    Comes env I c (writing x e) False fun next flow => next = .continue ∧
      env.leave I next flow =
        ⟨env.nia, .boring, c.memory, x.keeping.written env.arch I.order c.state y⟩ := by
  have hdone : ∀ c' [Since c c'], c'.state = x.keeping.written env.arch I.order c.state y →
      c'.memory = c.memory → Comes env I c' (pure ()) False fun next flow => next = .continue ∧
        env.leave I next flow =
          ⟨env.nia, .boring, c.memory, x.keeping.written env.arch I.order c.state y⟩ := by
    intro c' _ hstate hmemory
    refine .done (Since.next_eq hnext) ⟨rfl, ?_⟩
    rw [← hstate, ← hmemory]
    rfl
  have hput {s : SpecialSlot} {e : Expr} {v : Value} {z : BitVec (s.ty env.arch).bits}
      (hv : c.Has I e v) (hz : v = ⟨s.ty env.arch, z⟩)
      (hwritten : x.keeping.written env.arch I.order c.state y =
        c.state.holding env.arch I.order s z) :
      Comes env I c (Lift.putSlot s e) False fun next flow => next = .continue ∧
        env.leave I next flow =
          ⟨env.nia, .boring, c.memory, x.keeping.written env.arch I.order c.state y⟩ := by
    refine .last (.putHeld hlayout hv hz fun c' _ hstate hmemory => ?_)
    exact hdone c' (hstate.trans hwritten.symm) hmemory
  cases x with
  | xer =>
      refine .give rfl (.last (putXer_comes hI.toBitwise hlayout (he.low32 hI.toBitwise).always ?_))
      exact hdone
  | word s => exact hput he.always (Value.mk_setWidth hx.symm y) rfl
  | narrow s =>
      exact .give rfl (hput (he.low32 hI.toBitwise).always (Value.setWidth_mk hx.symm y) rfl)
  | wide s => exact .give rfl (hput (he.to64 hI.toBitwise).always (Value.setWidth_mk hx.symm y) rfl)
  | upper s =>
      have hhigh := (he.to64 hI.toBitwise (S := (· = c.state))).bin (.const (.u8 32)) rfl
        (hI.shl .w64 _ 32 (by decide))
      have hold : c.Knows I (· = c.state) (.get (specialOffset env.arch s) (s.ty env.arch))
          ⟨.i64, _⟩ := (Point.knows_slot env.arch s).congr (Value.mk_setWidth hx _)
      have hlow := hold.bin (.const (.u64 0xFFFFFFFF)) rfl (hI.and .w64 _ _)
      have hmerged := hhigh.bin hlow rfl (hI.or .w64 _ _)
      refine .give rfl (.give (exec_getSpecialSlot s) ?_)
      rw [hlayout]
      refine hput (hmerged.has rfl) (.trans ?_ (Value.mk_setWidth (τ := .i64) hx.symm _)) rfl
      refine congrArg (Value.mk .i64) ((shift_or_low y _).trans ?_)
      exact congrArg (_ ++ ·) (Ty.apply_setWidth hx _ fun _ => BitVec.setWidth 32)

end System

/-! ## The time base -/

/-- Arrays of types that give the staged temporaries their types. -/
def Stage.Gives (s : Stage) (types : Array Ty) : Prop :=
  ∀ t τ, s.check (.tmp t) = .ok τ → types[t]?.getD default = τ

theorem Stage.gives_extended (s : Stage) : s.Gives (s.outer ++ s.types) := by
  intro t τ ht
  rw [check_tmp_iff, base] at ht
  split at ht
  next hlt => rw [Array.getElem?_append_left hlt, ht, Option.getD_some]
  next hge => rw [Array.getElem?_append_right (Nat.le_of_not_lt hge), ht.2, Option.getD_some]

namespace System

/-- What is left by asking for the time base. -/
def clocked (I : Interp M) (memory : M) : Called M := I.call memory .readTimeBase [] none []

/-- What the time base, or its upper half, reads as. -/
def clock (I : Interp M) (memory : M) (upper : Bool) : BitVec 64 :=
  let t : BitVec 64 := (clocked I memory).result .i64
  if upper then t >>> 32 else t

/-- The call that asks for the time base. -/
def asking (t : Nat) : EffectCall where
  helper := .readTimeBase
  guard := .u1 true
  args := []
  result := some t
  memory := none
  state := []

/-- The machine that has asked for the time base. -/
def asked (I : Interp M) (t : Nat) (m : Machine M) : Machine M :=
  { m with memory := (clocked I m.memory).memory }.bind t ⟨.i64, (clocked I m.memory).result .i64⟩

theorem asking_run {types : Array Ty} {t : Nat} (ht : types[t]?.getD default = .i64)
    (m : Machine M) : (Stmt.call (asking t)).run I types m = .behind (asked I t m) := by
  simp only [Stmt.run, EffectCall.run, asking]
  generalize types[t]?.getD default = τ at ht
  subst ht
  rfl

/-- The time base is asked for; then its value is known. -/
theorem timeBase_asks (env : Env) (hI : I.Bitwise) (c : Point M) (upper : Bool) :
    ∃ (e : Expr) (c₁ : Point M), exec env c.progress (timeBase upper) = (.ok e, c₁.progress) ∧
      c₁.progress.next = c.progress.next ∧ c₁.machine = asked I c.stage.fresh c.machine ∧
      c₁.stage.stmts.toList = c.stage.stmts.toList ++ [.call (asking c.stage.fresh)] ∧
      c₁.stage.check (.tmp c.stage.fresh) = .ok .i64 ∧
      c₁.Has I e ⟨env.arch.word.ty, (clock I c.memory upper).setWidth _⟩ := by
  let t := c.stage.fresh
  let called : Stage := ((c.stage.newTemp .i64).1.marked t).push (.call (asking t))
  have hnew : Lift.Does env I c.progress (Lift.newTemp .i64) _ _ _ := newTemp_does c.level .i64
  have hopen : (c.stage.newTemp .i64).1.Open t .i64 := newTemp_open c.level .i64
  have hbound : called.check (.tmp t) = .ok .i64 := hopen.check_marked _
  let c₁ : Point M := ⟨{ c.progress with stage := called }, asked I t c.machine,
    (hopen.follows_marked hnew.follows.level _).level⟩
  have hcall : (c.stage.newTemp .i64).1.call (asking t) = .ok called := by
    have hguard : (c.stage.newTemp .i64).1.check (.u1 true) = .ok .i1 := rfl
    simp only [Stage.call, asking, hguard, hopen.markBound_eq, ok_bind]
    rfl
  let e : Expr := if upper then bin .shr64 (.tmp t) (.u8 32) else .tmp t
  refine ⟨cutDouble env.arch e, c₁, ?_, rfl, rfl, Stage.push_stmts _, hbound, ?_⟩
  · unfold timeBase
    rw [Lift.exec_bind, hnew.exec_eq]
    change exec env _ (Lift.onStage (·.call (asking t)) >>= fun _ => ofDoubleword _) = _
    rw [Lift.exec_bind, Lift.exec_onStage hcall]
    exact exec_ofDoubleword _ _
  · have htime : ∀ {S}, c₁.Knows I S (.tmp t) ⟨.i64, (clocked I c.memory).result .i64⟩ :=
      .tmp hbound (if_pos rfl) rfl
    refine (Knows.cutDouble hI env.arch ?_).always
    cases upper with
    | false => exact htime
    | true => exact htime.bin (.const (.u8 32)) rfl (hI.shr .w64 _ 32 (by decide))

/-- The time base is read into a general register. -/
theorem timeBase_runs (hI : I.Bitwise) (hlayout : env.layout = env.arch) (c : Point M)
    (upper : Bool) {i : Nat} (hi : i < 32) :
    ∃ p ss, exec env c.progress (timeBase upper >>= fun e => Lift.bind e >>= Lift.putGpr i) =
        (.ok (), p) ∧ p.next = c.progress.next ∧
      p.stage.stmts.toList = c.stage.stmts.toList ++ ss ∧
      ∀ types, p.stage.Gives types → ∃ m', runAll I types ss c.machine = .behind m' ∧
        m'.memory = (clocked I c.memory).memory ∧
        m'.state = c.state.withOperand env.arch I.order i
          ((clock I c.memory upper).setWidth _) := by
  obtain ⟨e, c₁, hexec, hnext, hmachine, hcode, hbound, he⟩ := timeBase_asks env hI c upper
  have hplace : Layout.locate env.layout (.gpr i) =
      .ok ⟨i * env.arch.wordBytes, env.arch.wordTy⟩ := hlayout ▸ Layout.gpr_eq env.layout hi
  have hbind : Lift.Does env I c₁.progress (Lift.bind e) _ _ _ := Lift.bind_does c₁.level he.check
  have hput : Lift.Does env I _ (Lift.putSlot (.gpr i) (.tmp c₁.stage.fresh)) _ _ _ :=
    Lift.putSlot_does hbind.follows.level hplace ((Stage.check_fresh c₁.level e _).trans
      (congrArg Except.ok (Arch.wordTy_eq _).symm))
  have hrest := hbind.andThen (f := Lift.putGpr i) hput
  obtain ⟨ss, hss, hrun⟩ := hrest.code
  refine ⟨_, .call (asking c.stage.fresh) :: ss, ?_, hrest.next_eq.trans hnext, ?_,
    fun types htypes => ?_⟩
  · rw [Lift.exec_bind, hexec]
    exact hrest.exec_eq
  · rw [hss, show c₁.progress.stage.stmts.toList = _ from hcode, List.append_assoc]
    rfl
  · have hstep := asking_run (I := I) (htypes _ _ (hrest.follows.check _ _ hbound)) c.machine
    refine ⟨_, .trans ?_ (hrun types c₁.machine), ?_, ?_⟩
    · rw [runAll, hstep, hmachine]
      rfl
    · exact congrArg Machine.memory hmachine
    · have htmp : (Expr.tmp c₁.stage.fresh).eval I (c₁.machine.bind c₁.stage.fresh _) =
          e.eval I c₁.machine := if_pos rfl
      have hstate : c₁.machine.state = c.state := by
        rw [hmachine]
        rfl
      change c₁.machine.state.write I.order _ _ = _
      rw [hstate]
      exact congrArg (c.state.write I.order _) (htmp.trans he.eval)

end System

/-! ## Instructions -/

/-- What a word performs whose code runs over temporaries of the types that its block gives them. -/
def Guest.PerformsInBlock (g : Guest) (w : Insn) (I : Interp M) (refused : Prop)
    (P : BitVec 64 → Continuation → Machine M → Left M → Prop) : Prop :=
  ∀ code offset cia blockStart block (m : Machine M), g.check = .ok () →
    Insn.fetch? code offset g.info.order = some w →
    ∃ l ss, (g.lift code offset cia blockStart block).result = .ok l ∧
      (g.lift code offset cia blockStart block).block.stmts.toList = block.stmts.toList ++ ss ∧
      (l.isRefused = true ↔ refused) ∧
      (¬refused → l = ⟨4, l.next, none⟩ ∧
        P cia l.next m ((g.env cia blockStart).leave I l.next
          (runAll I (g.lift code offset cia blockStart block).block.types ss m)))

theorem Guest.Performs.inBlock {g : Guest} {refused : Prop}
    {P : BitVec 64 → Continuation → Machine M → Left M → Prop} (h : g.Performs w I refused P) :
    g.PerformsInBlock w I refused P := by
  intro code offset cia blockStart block m hcheck hfetch
  obtain ⟨l, ss, hresult, hstmts, hrefused, hleft⟩ := h code offset cia blockStart block m hcheck
    hfetch
  exact ⟨l, ss, hresult, hstmts, hrefused, fun h => ⟨(hleft h).1, (hleft h).2 _⟩⟩

/-- A word that is accepted performs what its code does over temporaries of their types. -/
theorem Guest.performsInBlock {g : Guest} {route : Route} (hroute : Route.find? w = some route)
    (hopcode : w.opcode ≠ 21 ∧ w.opcode ≠ 30) (hopen : ¬route.Closed g)
    {P : BitVec 64 → Continuation → Machine M → Left M → Prop}
    (hlift : ∀ (env : Env) (c : Point M), env.layout = env.arch →
      (∃ cia blockStart, env = g.env cia blockStart) → c.progress.next = .continue →
      ∃ p ss, exec env c.progress (route.family.lift w) = (.ok (), p) ∧ p.next = .continue ∧
        p.stage.stmts.toList = c.stage.stmts.toList ++ ss ∧
        ∀ types, p.stage.Gives types →
          P env.cia .continue c.machine (env.leave I .continue (runAll I types ss c.machine))) :
    g.PerformsInBlock w I False P := by
  intro code offset cia blockStart block m hcheck hfetch
  have hscan := scan_absent hfetch hopcode
  let env := g.env cia blockStart
  let marked : Progress := { stage := (Stage.start block).mark cia 4 0 }
  have hlayout : env.layout = env.arch := (supported_of_check hcheck).layout_eq
  obtain ⟨p, ss, hexec, hnext, hcode, hP⟩ := hlift env ⟨marked, m, rfl⟩ hlayout ⟨_, _, rfl⟩ rfl
  have hgate : route.closedGate? env.arch env.features = none :=
    Option.not_isSome_iff_eq_none.mp hopen
  have hread : exec env marked (read : Lift Env) = (.ok env, marked) := rfl
  have hattempt : g.attempt code offset cia blockStart block w = (.ok (4, none), p) := by
    have hinstruction : exec env marked (Lift.instruction w) = (.ok (), p) := by
      simp only [Lift.instruction, hroute, Lift.exec_bind, hread, hgate]
      exact hexec
    rw [attempt, hscan]
    change exec env marked (Lift.instruction w >>= fun _ => pure (4, none)) = _
    rw [Lift.exec_bind, hinstruction]
    rfl
  have houter := attempt_outer hcheck hscan hattempt
  obtain ⟨hresult, hblock⟩ := lift_of_success hcheck hfetch hattempt houter
  refine ⟨_, .mark cia 4 0 :: ss, hresult, ?_, ?_, fun _ => ⟨rfl, ?_⟩⟩
  · rw [hblock, Block.extended, Array.toList_append, hcode]
    rfl
  · simp [Lifted.isRefused, hnext]
  · have htypes := p.stage.gives_extended
    rw [houter] at htypes
    rw [hblock, hnext]
    exact hP _ htypes

/-- The instructions that move special-purpose registers: whether they write them. -/
inductive Insn.SpecialForm (w : Insn) : Bool → Prop where
  | mfspr (hopcode : w.opcode = 31) (hxo : w.xo10 = 339) : SpecialForm w false
  | mtspr (hopcode : w.opcode = 31) (hxo : w.xo10 = 467) : SpecialForm w true

theorem Insn.SpecialForm.route {writes : Bool} (hform : w.SpecialForm writes) :
    ∃ route, Route.find? w = some route ∧ route.family = .system ∧
      (∀ g, ¬route.Closed g) ∧ w.opcode ≠ 21 ∧ w.opcode ≠ 30 ∧
      System.lift w = if writes then System.writeSpecial w else System.readSpecial w := by
  cases hform with
  | mfspr hopcode hxo | mtspr hopcode hxo =>
      obtain ⟨_, hroute⟩ : ∃ pattern, Route.find? w = some ⟨pattern, [], .system⟩ :=
        Route.find?_form hopcode hxo (by decide)
      refine ⟨_, hroute, rfl, fun g => Route.not_closed g, by simp [hopcode], by simp [hopcode], ?_⟩
      rw [System.lift, hopcode, hxo]
      rfl

/-- What a register is found to hold, and memory behind the read. -/
def SpecialRegister.fetched (I : Interp M) (arch : Arch) (memory : M) (σ : GuestState)
    (r : SpecialRegister) : BitVec arch.word.ty.bits × M :=
  match r.keeping with
  | .clock upper => ((System.clock I memory upper).setWidth _, (System.clocked I memory).memory)
  | k => (k.value arch I.order σ, memory)

/-- How a write of a register from a general register is left. -/
def Guest.afterWrite (g : Guest) (I : Interp M) (w : Insn) (r : SpecialRegister) (cia : BitVec 64)
    (m : Machine M) : Left M :=
  let x := m.state.operand g.arch I.order w.rs
  ⟨(g.env cia cia).nia, .boring, m.memory, r.keeping.written g.arch I.order m.state x⟩

/-- How a read of a register to a general register is left. -/
def Guest.afterRead (g : Guest) (I : Interp M) (w : Insn) (r : SpecialRegister) (cia : BitVec 64)
    (m : Machine M) : Left M :=
  let (x, memory) := r.fetched I g.arch m.memory m.state
  ⟨(g.env cia cia).nia, .boring, memory, m.state.withOperand g.arch I.order w.rd x⟩

namespace System

variable {r : SpecialRegister}

theorem fetched_of_keeping {x : Special} (hkeeping : r.keeping = x.keeping) (arch : Arch)
    (memory : M) (σ : GuestState) :
    r.fetched I arch memory σ = (x.keeping.value arch I.order σ, memory) := by
  rw [SpecialRegister.fetched, hkeeping]
  cases x <;> rfl

theorem fetched_stored (hstored : r.isStored = true) (arch : Arch) (memory : M) (σ : GuestState) :
    r.fetched I arch memory σ = (r.keeping.value arch I.order σ, memory) := by
  cases r <;> first | rfl | cases hstored

/-- A number is refused where it names no register that can be written. -/
theorem writeSpecial_comes (hI : I.Integral) (hlayout : env.layout = env.arch)
    (hnext : c.progress.next = .continue) :
    Comes env I c (writeSpecial w)
      (w.record = true ∨ ¬∃ r : SpecialRegister, r.number = w.spr ∧ r.isWritable = true)
      fun next flow => next = .continue ∧ ∃ r : SpecialRegister, r.number = w.spr ∧
        r.isWritable = true ∧ env.leave I next flow = ⟨env.nia, .boring, c.memory,
          r.keeping.written env.arch I.order c.state
            (c.state.operand env.arch I.order w.rs)⟩ := by
  obtain ⟨line, hcode⟩ := writeSpecial_eq w
  rw [hcode]
  refine .guard (Lift.reservedClear_refuses w _ _) fun _ => .listed fun c₁ _ hmachine₁ => ?_
  have hstate₁ : c₁.state = c.state := congrArg Machine.state hmachine₁
  have hgpr : c₁.Knows I (· = c₁.state) (.gpr env.arch w.rs) _ := Point.knows_gpr env.arch w.rs
  refine .give (exec_getGpr hlayout w.rd_lt) (.bind (hgpr.has rfl) ?_)
  intro e c₂ _ hstate₂ hmemory₂ he
  cases hfound : destination? w.spr with
  | none =>
      have hnone : ¬∃ r : SpecialRegister, r.number = w.spr ∧ r.isWritable = true := by
        rintro ⟨r, hr, hwritable⟩
        obtain ⟨x, hx, -⟩ := exists_destination? hwritable
        rw [hr, hfound] at hx
        cases hx
      exact .refuses hnone rfl
  | some x =>
      obtain ⟨r, hr, hwritable, hkeeping⟩ := exists_of_destination? hfound
      have hfits := Special.fits_of_source? env.arch (source?_of_destination? hfound)
      refine (writing_comes hI hlayout hfits he (Since.next_eq hnext)).mono
        (iff_of_false id fun hnone => hnone ⟨r, hr, hwritable⟩)
        fun next flow h => ⟨h.1, r, hr, hwritable, ?_⟩
      rw [h.2, hstate₂, hstate₁, hmemory₂, hkeeping, show c₁.memory = c.memory from
        congrArg Machine.memory hmachine₁]

/-- A number is refused where it names no register. -/
theorem readSpecial_comes (hI : I.Integral) (hlayout : env.layout = env.arch)
    (hnext : c.progress.next = .continue)
    (hstored : w.record = false → ∀ upper, source? w.spr ≠ some (.timeBase upper)) :
    Comes env I c (readSpecial w)
      (w.record = true ∨ ¬∃ r : SpecialRegister, r.number = w.spr)
      fun next flow => next = .continue ∧ ∃ r : SpecialRegister, r.number = w.spr ∧
        let (x, memory) := r.fetched I env.arch c.memory c.state
        env.leave I next flow =
          ⟨env.nia, .boring, memory, c.state.withOperand env.arch I.order w.rd x⟩ := by
  obtain ⟨line, hcode⟩ := readSpecial_eq w
  rw [hcode]
  refine .guard (Lift.reservedClear_refuses w _ _) fun hrecord => .listed fun c₁ _ hmachine₁ => ?_
  have hstate₁ : c₁.state = c.state := congrArg Machine.state hmachine₁
  cases hfound : source? w.spr with
  | none =>
      have hnone : ¬∃ r : SpecialRegister, r.number = w.spr := by
        rintro ⟨r, hr⟩
        obtain ⟨y, hy, -⟩ := exists_source? r
        rw [hr, hfound] at hy
        cases hy
      exact .refuses hnone rfl
  | some y =>
      obtain ⟨r, hr, hkeeping⟩ := exists_of_source? hfound
      cases y with
      | timeBase upper => exact absurd hfound (hstored (Bool.eq_false_iff.mpr hrecord) upper)
      | stored x =>
          obtain ⟨e, hexec, he⟩ :=
            reading_knows hI hlayout (Special.fits_of_source? env.arch hfound) c₁
          refine .give hexec (.bind (he.has rfl) fun t c₂ _ hstate₂ hmemory₂ ht => ?_)
          refine .last (.putGpr hlayout w.rd_lt ht.always fun c₃ _ hstate₃ hmemory₃ => ?_)
          refine (Comes.done (Since.next_eq hnext) ⟨rfl, r, hr, ?_⟩).congr
            (iff_of_false id fun hnone => hnone ⟨r, hr⟩)
          rw [hstate₂, hstate₁] at hstate₃
          simp only [fetched_of_keeping hkeeping]
          rw [← hstate₃, ← show c₃.memory = c.memory from hmemory₃.trans (hmemory₂.trans
            (congrArg Machine.memory hmachine₁))]
          rfl

end System

theorem Guest.readStored_performs (g : Guest) (hI : I.Integral) (hform : w.SpecialForm false)
    (hstored : w.record = false → ∀ upper, source? w.spr ≠ some (.timeBase upper)) :
    g.PerformsInBlock w I (w.record = true ∨ ¬∃ r : SpecialRegister, r.number = w.spr)
      fun cia next m out => next = .continue ∧
        ∃ r : SpecialRegister, r.number = w.spr ∧ out = g.afterRead I w r cia m := by
  obtain ⟨route, hroute, hfamily, hopen, h21, h30, hlift⟩ := hform.route
  refine Guest.Performs.inBlock (Guest.performs hroute ⟨h21, h30⟩ _ (or_iff_right (hopen g))
    fun env c hlayout henv hnext => ?_)
  obtain ⟨cia, blockStart, rfl⟩ := henv
  rw [hfamily]
  change Comes _ I c (System.lift w) _ _
  rw [hlift, if_neg Bool.false_ne_true]
  exact System.readSpecial_comes hI hlayout hnext hstored

/-- The word of a read of the time base runs as its code does. -/
theorem Guest.readTime_performs (g : Guest) (hI : I.Integral) (hform : w.SpecialForm false)
    (hrecord : w.record = false) {upper : Bool} (hspr : source? w.spr = some (.timeBase upper))
    {r : SpecialRegister} (hr : r.keeping = .clock upper) :
    g.PerformsInBlock w I False fun cia next m out =>
      next = .continue ∧ out = g.afterRead I w r cia m := by
  obtain ⟨route, hroute, hfamily, hopen, h21, h30, hlift⟩ := hform.route
  refine Guest.performsInBlock hroute ⟨h21, h30⟩ (hopen g) fun env c hlayout henv hnext => ?_
  obtain ⟨cia, blockStart, rfl⟩ := henv
  obtain ⟨line, hcode⟩ := System.readSpecial_eq w
  rw [hspr, hrecord] at hcode
  let c₁ : Point M := ⟨{ c.progress with listing := c.progress.listing.push line }, c.machine,
    c.level⟩
  obtain ⟨p, ss, hexec, hp, hstmts, hrun⟩ :=
    System.timeBase_runs hI.toBitwise hlayout c₁ upper w.rd_lt
  refine ⟨p, ss, ?_, hp.trans hnext, hstmts, fun types htypes => ⟨rfl, ?_⟩⟩
  · rw [hfamily]
    change exec _ c.progress (System.lift w) = _
    rw [hlift, if_neg Bool.false_ne_true, hcode]
    exact hexec
  · obtain ⟨m', hbehind, hmemory, hstate⟩ := hrun types htypes
    rw [show runAll I types ss c.machine = .behind m' from hbehind]
    change (⟨_, _, m'.memory, m'.state⟩ : Left M) = _
    rw [hmemory, hstate, afterRead, SpecialRegister.fetched, hr]
    rfl

theorem Guest.readSpecial_performs (g : Guest) (hI : I.Integral) (hform : w.SpecialForm false) :
    g.PerformsInBlock w I (w.record = true ∨ ¬∃ r : SpecialRegister, r.number = w.spr)
      fun cia next m out => next = .continue ∧
        ∃ r : SpecialRegister, r.number = w.spr ∧ out = g.afterRead I w r cia m := by
  by_cases hstored : w.record = false → ∀ upper, source? w.spr ≠ some (.timeBase upper)
  · exact g.readStored_performs hI hform hstored
  · simp only [not_forall, not_not] at hstored
    obtain ⟨hrecord, upper, hspr⟩ := hstored
    obtain ⟨r, hr, hkeeping⟩ := System.exists_of_source? hspr
    have hnone : ¬(w.record = true ∨ ¬∃ r : SpecialRegister, r.number = w.spr) := by
      rw [hrecord]
      exact not_or.mpr ⟨Bool.false_ne_true, not_not.mpr ⟨r, hr⟩⟩
    have htime := g.readTime_performs hI hform hrecord hspr hkeeping
    intro code offset cia blockStart block m hcheck hfetch
    obtain ⟨l, ss, hresult, hstmts, hrefused, hleft⟩ :=
      htime code offset cia blockStart block m hcheck hfetch
    refine ⟨l, ss, hresult, hstmts, hrefused.trans (iff_of_false id hnone), fun _ => ?_⟩
    obtain ⟨hl, hcontinue, hout⟩ := hleft id
    exact ⟨hl, hcontinue, r, hr, hout⟩

theorem Guest.writeSpecial_performs (g : Guest) (hI : I.Integral) (hform : w.SpecialForm true) :
    g.Performs w I
      (w.record = true ∨ ¬∃ r : SpecialRegister, r.number = w.spr ∧ r.isWritable = true)
      fun cia next m out => next = .continue ∧ ∃ r : SpecialRegister, r.number = w.spr ∧
        r.isWritable = true ∧ out = g.afterWrite I w r cia m := by
  obtain ⟨route, hroute, hfamily, hopen, h21, h30, hlift⟩ := hform.route
  refine Guest.performs hroute ⟨h21, h30⟩ _ (or_iff_right (hopen g))
    fun env c hlayout henv hnext => ?_
  obtain ⟨cia, blockStart, rfl⟩ := henv
  rw [hfamily]
  change Comes _ I c (System.lift w) _ _
  rw [hlift, if_pos rfl]
  exact System.writeSpecial_comes hI hlayout hnext

/-- A special-purpose register reads back what it keeps of a value that was written, and the other
registers read as before. Nothing else of the guest state changes. Numbers, widths and places of the
registers are those told of them. -/
theorem Guest.specials_read_back (g : Guest) (hI : I.Integral) :
    (∀ {w : Insn}, w.SpecialForm true →
      g.Performs w I
        (w.record = true ∨ ¬∃ r : SpecialRegister, r.number = w.spr ∧ r.isWritable = true)
        fun cia next m out => next = .continue ∧ ∃ r : SpecialRegister, r.number = w.spr ∧
          r.isWritable = true ∧ out = g.afterWrite I w r cia m) ∧
    (∀ {w : Insn}, w.SpecialForm false →
      g.PerformsInBlock w I (w.record = true ∨ ¬∃ r : SpecialRegister, r.number = w.spr)
        fun cia next m out => next = .continue ∧
          ∃ r : SpecialRegister, r.number = w.spr ∧ out = g.afterRead I w r cia m) ∧
    (∀ {w w' : Insn} {r r' : SpecialRegister} (cia cia' : BitVec 64) (temps : Nat → Value)
      (m : Machine M), r.isWritable = true →
      let x := m.state.operand g.arch I.order w.rs
      let out := g.afterWrite I w r cia m
      let read (m : Machine M) := (g.afterRead I w' r' cia' m).state.operand g.arch I.order w'.rd
      (r' = r → read ⟨temps, out.memory, out.state⟩ = r.kept g.arch x) ∧
      (r' ≠ r → ¬(r = .ppr ∧ r' = .ppr32) → ¬(r = .ppr32 ∧ r' = .ppr) →
        r'.isStored = true → read ⟨temps, out.memory, out.state⟩ = read m) ∧
      (r = .ppr32 → out.state.held g.arch I.order .ppr =
        x.setWidth 32 ++ (m.state.held g.arch I.order .ppr).setWidth 32) ∧
      (g.arch = .ppc32 → r.width g.arch = 64 → ∀ s ∈ r.keeping.slots,
        (out.state.held g.arch I.order s).extractLsb' 32 32 = 0)) := by
  refine ⟨fun hform => g.writeSpecial_performs hI hform, fun hform =>
    g.readSpecial_performs hI hform, ?_⟩
  intro w w' r r' cia cia' temps m hwritable x out read
  have hread (m : Machine M) (hstored : r'.isStored = true) :
      read m = r'.keeping.value g.arch I.order m.state := by
    simp only [read, afterRead, System.fetched_stored hstored, GuestState.operand_withOperand]
  refine ⟨?_, fun hne halias halias' hstored => ?_, ?_, fun harch hwide => ?_⟩
  · rintro rfl
    rw [hread _ (SpecialRegister.isStored_of_isWritable hwritable)]
    exact SpecialRegister.value_written hwritable x
  · rw [hread _ hstored, hread _ hstored]
    exact Keeping.value_written_of_apart (SpecialRegister.apart hne halias halias') x
  · rintro rfl
    exact SpecialRegister.ppr_written x
  · exact SpecialRegister.upper_half_written harch hwide hwritable x

/-- A machine whose general register 4 is minus one. -/
def SpecialRegister.filled : Machine Unit :=
  .start () fun o => if 32 ≤ o ∧ o < 40 then 0xFF else 0

/-- The code of `mtspr 1,r4` writes the exception register, and from there the code of `mfspr r3,1`
reads the bits that it has. What `mtspr 256,r4` leaves, `mfspr r3,256` finds with 32 bits. -/
theorem Guest.specials_read_back_words :
    let g : Guest := { arch := .ppc64 }
    (∃ out ss, (g.lift ⟨#[0x7C, 0x81, 0x03, 0xA6]⟩ 0 0x1000 0x1000 (.empty 0)).block.stmts.toList =
        ss ∧
      (g.env 0x1000 0x1000).leave (.integral .big) .continue
        (runAll (.integral .big) #[] ss SpecialRegister.filled) = out ∧
      ∃ out' ss', (g.lift ⟨#[0x7C, 0x61, 0x02, 0xA6]⟩ 0 0x1004 0x1004 (.empty 0)).block.stmts.toList
          = ss' ∧
        (g.env 0x1004 0x1004).leave (.integral .big) .continue
          (runAll (.integral .big)
            (g.lift ⟨#[0x7C, 0x61, 0x02, 0xA6]⟩ 0 0x1004 0x1004 (.empty 0)).block.types ss'
            (.start out.memory out.state)) = out' ∧
        out'.state.operand .ppc64 .big 3 = 0xE000007F) ∧
    let out := g.afterWrite (.integral .big) ⟨0x7C8043A6⟩ .vrsave 0x1000 SpecialRegister.filled
    (g.afterRead (.integral .big) ⟨0x7C6042A6⟩ .vrsave 0x1004
      (.start out.memory out.state)).state.operand .ppc64 .big 3 = 0xFFFFFFFF := by
  intro g
  obtain ⟨hwrite, hread, hback⟩ := Guest.specials_read_back g (Interp.integral_integral .big)
  have hkept {w w' : Insn} {r : SpecialRegister} (hr : r.isWritable = true) :=
    (@hback w w' r r 0x1000 0x1004 (fun _ => default) SpecialRegister.filled hr).1 rfl
  refine ⟨?_, (hkept rfl).trans (by decide +kernel)⟩
  obtain ⟨next, ss, -, hstmts, rfl, r, hr, -, hout⟩ :=
    (hwrite (w := ⟨0x7C8103A6⟩) (.mtspr (by decide) (by decide))).exists_run (by decide)
      ⟨#[0x7C, 0x81, 0x03, 0xA6]⟩ (by decide) (by decide) 0x1000 SpecialRegister.filled
  obtain rfl : r = .xer := SpecialRegister.number_injective hr
  refine ⟨_, ss, hstmts, hout, ?_⟩
  obtain ⟨l, ss', -, hstmts', -, hleft⟩ :=
    hread (w := ⟨0x7C6102A6⟩) (.mfspr (by decide) (by decide)) ⟨#[0x7C, 0x61, 0x02, 0xA6]⟩ 0 0x1004
      0x1004 (.empty 0) (.start _ _) (by decide) (by decide)
  obtain ⟨-, hnext, r', hr', hout'⟩ := hleft (by decide)
  obtain rfl : r' = .xer := SpecialRegister.number_injective hr'
  rw [hnext] at hout'
  exact ⟨_, ss', hstmts', hout', (hkept rfl).trans (by decide +kernel)⟩

end PowerLift
