import PowerLift.Proofs.FloatItems
import PowerLift.Proofs.Pixels
import PowerLift.Proofs.Strings

/-!
# The code of floating-point and vector-scalar accesses

Whatever an access moves, its address is known before anything changes, its pieces are moved one
after the other, and the base register is written last where it is to be updated.
-/

namespace PowerLift

open Lift (exec)
open Point (Knows Has Step Since)
open PowerLift.Expr (un bin)
open LoadStore (Offset)

variable {M : Type} {I : Interp M} {env : Env} {c : Point M} {w : Insn}

/-- Integers and vectors, and numbers taken for their bits. -/
structure Interp.Floating (I : Interp M) : Prop extends I.Vectors, I.Patterns

/-! ## Values -/

namespace Point

/-- What is read from memory that is addressed by words. -/
theorem Has.loadWord {arch : Arch} {view : M → WordMemory arch.word.ty.bits}
    (hview : I.Wordwise arch view) {a : Expr} {x : BitVec arch.word.ty.bits}
    (ha : c.Has I a ⟨arch.word.ty, x⟩) (order : ByteOrder) {ty : Ty} (hty : ty ≠ .i1) :
    c.Has I (.load order ty a) ⟨ty, (view c.memory).read order x ty⟩ where
  check := Stage.check_load ha.check_word order ty
  eval := by
    rw [Expr.eval, ha.eval]
    exact congrArg (Value.mk ty) (hview.load c.machine.memory order ty x hty)

/-- The first piece stands at the address itself. -/
theorem Knows.first {S : GuestState → Prop} {e : Expr} {a : BitVec env.arch.word.ty.bits}
    (he : c.Knows I S e ⟨env.arch.word.ty, a⟩) :
    c.Knows I S e ⟨env.arch.word.ty, a + .ofNat _ 0⟩ :=
  he.congr (congrArg (Value.mk _) (BitVec.add_zero a).symm)

/-- The code of a rounding mode. -/
theorem rounding_knows (hI : I.Bitwise) (hlayout : env.layout = env.arch) (c : Point M) :
    ∃ e, exec env c.progress Lift.rounding = (.ok e, c.progress) ∧
      c.Knows I (· = c.state) e ⟨.i32, (c.state.roundingMode env.arch).code⟩ := by
  let o := Layout.specialOffset env.arch .fpRound
  have hplace : Layout.locate env.layout SpecialSlot.fpRound = .ok ⟨o, .i8⟩ := by
    rw [hlayout]
    rfl
  have hexec : exec env c.progress Lift.rounding =
      (.ok (Lift.roundingOf (bin .and32 (byte32 o) (.u32 3))), c.progress) := by
    rw [Lift.rounding, Lift.exec_bind, exec_getByte32 hplace]
    rfl
  have hbyte : c.Knows I (· = c.state) (byte32 o) (.i32 ((c.state o).setWidth 32)) :=
    ⟨byte32_check _ o, fun m _ hm => hm ▸ byte32_eval hI o m⟩
  have hfield := hbyte.bin (.const (.u32 3)) rfl (hI.and .w32 _ 3)
  have hshifted := (hfield.bin (.const (.u8 1)) rfl (hI.shl .w32 _ 1 (by decide))).bin
    (.const (.u32 2)) rfl (hI.and .w32 _ 2)
  refine ⟨_, hexec, (hfield.bin hshifted rfl (hI.xor .w32 _ _)).congr ?_⟩
  have hcode (b : BitVec 8) :
      (b.setWidth 32 &&& 3#32) ^^^ (((b.setWidth 32 &&& 3#32) <<< 1) &&& 2#32) =
        (Rounding.ofBits b).code := by
    revert b
    decide
  exact congrArg (Value.mk .i32) (hcode _)

/-- The high half of a vector. -/
theorem Knows.highHalf (hI : I.Vectors) {S : GuestState → Prop} {a : Expr} {x : BitVec 128}
    (ha : c.Knows I S a ⟨.v128, x⟩) :
    c.Knows I S (.un (.cast .highVto64) a) ⟨.i64, RegisterFile.high x⟩ :=
  ha.un rfl (hI.highVto64 x)

end Point

/-- One more value is stored behind others. -/
theorem Comes.storePiece {view : M → WordMemory env.arch.word.ty.bits}
    (hview : I.Wordwise env.arch view) {bytes : WordMemory env.arch.word.ty.bits}
    {a : BitVec env.arch.word.ty.bits} {ty : Ty} (hty : ty ≠ .i1) {g : Nat → BitVec ty.bits}
    {k p : Nat} (hbytes : view c.memory = bytes.writeAll env.host a ty g k)
    {addr e : Expr} (haddr : c.Has I addr ⟨env.arch.word.ty, a + .ofNat _ p⟩)
    (hp : p = k * ty.bytes) (he : c.Has I e ⟨ty, g k⟩) {φ : Prop}
    {Q : Continuation → Flow M → Prop} {f : Unit → Lift Unit}
    (hf : ∀ c' [Step c c'], c'.state = c.state →
      view c'.memory = bytes.writeAll env.host a ty g (k + 1) → Comes env I c' (f ()) φ Q) :
    Comes env I c (Lift.store addr e >>= f) φ Q := by
  subst hp
  refine .store haddr he hty fun c' _ hstate hmemory => hf c' hstate ?_
  rw [hmemory, hview.store _ _ _ _ hty, hbytes, WordMemory.writeAll]

/-! ## Endings -/

namespace FloatingPoint.Move

variable {x : Move} {view : M → WordMemory env.arch.word.ty.bits}
  {a : BitVec env.arch.word.ty.bits} {memory : M} {σ : GuestState}

/-- A piece is loaded from where it stands. -/
theorem fetched_has (hview : I.Wordwise env.arch view) {addr : Expr} {i p : Nat}
    (haddr : c.Has I addr ⟨env.arch.word.ty, a + .ofNat _ p⟩) (hp : p = i * x.item.ty.bytes) :
    c.Has I (.load env.host x.item.ty addr) ⟨x.item.ty, x.fetched env a (view c.memory) i⟩ := by
  subst hp
  exact haddr.loadWord hview env.host x.item.ty_ne_i1

/-- An access is done when its register, if it is to be updated, is written last. -/
theorem done_comes (hlayout : env.layout = env.arch) {e : Expr}
    (he : c.Has I e ⟨env.arch.word.ty, a⟩) (hnext : c.progress.next = .continue)
    (hbytes : view c.memory = x.bytesAfter env I w a (view memory) σ)
    (hloads : x.store = false → c.memory = memory)
    (hstate : c.state = x.registersAfter env I w a (view memory) σ) :
    Comes env I c (if x.update then Lift.putGpr w.ra e else pure ()) False fun next flow =>
      next = .continue ∧ x.Done env I view w a memory σ (env.leave I next flow) := by
  refine (LoadStore.update_comes hlayout he hnext x.update).mono Iff.rfl fun next flow hleft => ?_
  refine ⟨hleft.1, ?_⟩
  rw [hleft.2, hstate]
  exact ⟨rfl, rfl, hbytes, hloads, rfl⟩

/-- A load is done when its registers were given what was fetched. -/
theorem loaded_comes (hlayout : env.layout = env.arch) (hload : x.store = false) {e : Expr}
    (he : c.Has I e ⟨env.arch.word.ty, a⟩) (hnext : c.progress.next = .continue)
    (hmemory : c.memory = memory)
    (hstate : c.state = x.item.given I env.arch env.host w σ (x.fetched env a (view memory))) :
    Comes env I c (if x.update then Lift.putGpr w.ra e else pure ()) False fun next flow =>
      next = .continue ∧ x.Done env I view w a memory σ (env.leave I next flow) := by
  have hnot : ¬x.store = true := by simp [hload]
  refine done_comes hlayout he hnext ?_ (fun _ => hmemory) ?_
  · rw [bytesAfter, if_neg hnot, hmemory]
  · rw [registersAfter, if_neg hnot, hstate]

/-- A store is done when memory has what the registers hold. -/
theorem stored_comes (hlayout : env.layout = env.arch) (hstore : x.store = true) {e : Expr}
    (he : c.Has I e ⟨env.arch.word.ty, a⟩) (hnext : c.progress.next = .continue)
    (hbytes : view c.memory = (view memory).writeAll env.host a x.item.ty
      (x.item.held I env.arch env.host w σ) x.item.count)
    (hstate : c.state = σ) :
    Comes env I c (if x.update then Lift.putGpr w.ra e else pure ()) False fun next flow =>
      next = .continue ∧ x.Done env I view w a memory σ (env.leave I next flow) := by
  refine done_comes hlayout he hnext ?_ (fun hload => absurd hstore (by simp [hload])) ?_
  · rw [bytesAfter, if_pos hstore, hbytes]
  · rw [registersAfter, if_pos hstore, hstate]

end FloatingPoint.Move

/-! ## One floating-point register -/

namespace FloatingPoint

variable {view : M → WordMemory env.arch.word.ty.bits} {a : BitVec env.arch.word.ty.bits}
  {e : Expr}

/-- The access that a transfer is. -/
def Transfer.move (t : Transfer) : Move :=
  { item := .fpr t.datum, store := t.store, update := t.update }

/-- What a store of one register puts to memory. -/
theorem narrowed_comes (hI : I.Floating) (hlayout : env.layout = env.arch) {d : Datum} {φ : Prop}
    {Q : Continuation → Flow M → Prop} {f : Expr → Lift Unit}
    (hf : ∀ e, c.Has I e ⟨d.ty, d.narrowed I (c.state.roundingMode env.arch)
      (c.state.fpr env.arch env.host I.order w.rd)⟩ → Comes env I c (f e) φ Q) :
    Comes env I c (do
      let value ← match d with
        | .single => do pure (bin (.float .toSingle) (← Lift.rounding) (← Lift.getFpr w.rd))
        | .double => Lift.getFpr w.rd
        | .word _ => do pure (un (.cast .low64to32) (← Lift.getFprBits w.rd))
      f value) φ Q := by
  have hdouble : c.Has I (.fpr env.arch env.host w.rd) _ := (Point.knows_fpr w.rd).has rfl
  cases d with
  | single =>
      obtain ⟨mode, hexec, hmode⟩ := Point.rounding_knows hI.toBitwise hlayout c
      simp only [pure_bind]
      exact .give hexec (.give (exec_getFpr hlayout w.rd_lt)
        (hf _ ((hmode.has rfl).bin hdouble rfl rfl)))
  | double => exact .give (exec_getFpr hlayout w.rd_lt) (hf _ hdouble)
  | word signed =>
      obtain ⟨bits, hexec, hbits⟩ := getFprBits_knows hI.toPatterns hlayout w.rd_lt c
      simp only [pure_bind]
      exact .give hexec (hf _ ((hbits.has rfl).un rfl (hI.cast .low64to32 rfl .i64 rfl _)))

section

variable (hI : I.Floating) (hview : I.Wordwise env.arch view) (hlayout : env.layout = env.arch)
  (he : ∀ {S}, c.Knows I S e ⟨env.arch.word.ty, a⟩) (hnext : c.progress.next = .continue)

include hI hview hlayout he hnext

theorem store_comes {t : Transfer} (hstore : t.store = true) :
    Comes env I c (do
      let value ← match t.datum with
        | .single => do pure (bin (.float .toSingle) (← Lift.rounding) (← Lift.getFpr w.rd))
        | .double => Lift.getFpr w.rd
        | .word _ => do pure (un (.cast .low64to32) (← Lift.getFprBits w.rd))
      Lift.store e value
      if t.update then Lift.putGpr w.ra e else pure ()) False fun next flow =>
        next = .continue ∧ t.move.Done env I view w a c.memory c.state (env.leave I next flow) := by
  refine narrowed_comes hI hlayout fun value hvalue => ?_
  refine .storePiece hview (k := 0) (g := t.move.item.held I env.arch env.host w c.state)
    t.move.item.ty_ne_i1 rfl he.first.always (Nat.zero_mul _).symm hvalue
      fun c' _ hstate hbytes => ?_
  exact Move.stored_comes (x := t.move) hlayout hstore he.since.always (Since.next_eq hnext)
    hbytes hstate

theorem load_comes {t : Transfer} (hload : t.store = false) :
    Comes env I c (do
      match t.datum with
        | .single => Lift.putFpr w.rd (un (.float .ofSingle) (← Lift.load .f32 e))
        | .double => Lift.putFpr w.rd (← Lift.load .f64 e)
        | .word signed =>
            let op : Cast := if signed then .sext32to64 else .zext32to64
            Lift.putFprBits w.rd (un op (← Lift.load .i32 e))
      if t.update then Lift.putGpr w.ra e else pure ()) False fun next flow =>
        next = .continue ∧ t.move.Done env I view w a c.memory c.state (env.leave I next flow) := by
  have hloaded : c.Has I (.load env.host t.datum.ty e)
      ⟨t.datum.ty, t.move.fetched env a (view c.memory) 0⟩ :=
    Move.fetched_has (x := t.move) hview he.first.always (Nat.zero_mul _).symm
  have hend (c' : Point M) [Step c c'] (hstate : c'.state = c.state.withFpr env.arch env.host
        I.order w.rd (t.datum.widened I (t.move.fetched env a (view c.memory) 0)))
      (hmemory : c'.memory = c.memory) :
      Comes env I c' (if t.update then Lift.putGpr w.ra e else pure ()) False fun next flow =>
        next = .continue ∧
          t.move.Done env I view w a c.memory c.state (env.leave I next flow) :=
    Move.loaded_comes (x := t.move) hlayout hload he.since.always (Since.next_eq hnext) hmemory
      hstate
  generalize t.move.fetched env a (view c.memory) 0 = y at hloaded hend
  obtain ⟨name, datum, store, update⟩ := t
  cases datum with
  | single => exact .give rfl (.putFpr hlayout w.rd_lt (hloaded.un rfl rfl) hend)
  | double => exact .give rfl (.putFpr hlayout w.rd_lt hloaded hend)
  | word signed =>
      refine .give rfl (.putFprBits hI.toPatterns hlayout w.rd_lt ?_ hend)
      cases signed with
      | true => exact hloaded.un rfl (hI.sext32to64 _)
      | false => exact hloaded.un rfl (hI.cast .zext32to64 rfl .i32 rfl _)

end

theorem emit_comes (hI : I.Floating) (hview : I.Wordwise env.arch view)
    (hlayout : env.layout = env.arch) (he : c.Has I e ⟨env.arch.word.ty, a⟩)
    (hnext : c.progress.next = .continue) (t : Transfer) :
    Comes env I c (emit w t e) False fun next flow => next = .continue ∧
      t.move.Done env I view w a c.memory c.state (env.leave I next flow) := by
  unfold emit
  refine .bind he fun e' c' _ hstate hmemory he' => ?_
  rw [← hmemory, ← hstate]
  cases hstore : t.store with
  | true =>
      simp only [if_true]
      exact store_comes hI hview hlayout he' (Since.next_eq hnext) hstore
  | false =>
      simp only [Bool.false_eq_true, if_false]
      exact load_comes hI hview hlayout he' (Since.next_eq hnext) hstore

/-- A transfer whose address is the base register and an offset. -/
theorem transfer_comes (hI : I.Floating) (hview : I.Wordwise env.arch view)
    (hlayout : env.layout = env.arch) (hnext : c.progress.next = .continue) (t : Transfer)
    (o : Offset) (line what : String) :
    Comes env I c (do
      Lift.listed line
      Lift.invalidIf w (t.update && w.ra == 0) what
      let e ← LoadStore.ea w t.update o
      emit w t e) (t.move.Clashes w) fun next flow => next = .continue ∧
        t.move.Done env I view w (o.address env.arch I.order w t.update c.state) c.memory c.state
          (env.leave I next flow) := by
  refine .noted fun c₁ _ hstate₁ hmemory₁ => ?_
  rw [← hstate₁, ← hmemory₁]
  refine (Comes.guard (Lift.invalidIf_refuses w _ _) fun _ => ?_).congr (φ := _ ∨ False) ?_
  · obtain ⟨e, hexec, he⟩ := LoadStore.ea_knows (c := c₁) hI.toModular hlayout w t.update o
    exact .give hexec (emit_comes hI hview hlayout (he.has rfl) (Since.next_eq hnext) t)
  · simp [Move.Clashes, Transfer.move]

theorem immediate_transfer {t : Transfer} (hrow : Transfer.ofOpcode? w.opcode = some t) :
    ∃ line what, immediate w = (do
      Lift.listed line
      Lift.invalidIf w (t.update && w.ra == 0) what
      let e ← LoadStore.ea w t.update (.disp w.simm64)
      emit w t e) := by
  unfold immediate LoadStore.ea
  rw [hrow]
  obtain ⟨name, datum, store, update⟩ := t
  cases update <;> exact ⟨_, _, rfl⟩

theorem indexed_transfer {t : Transfer} (hrow : Transfer.ofIndexed? w.xo10 = some t) :
    ∃ reserved line what, indexed w = Lift.reservedClear w w.record reserved >>= fun _ => (do
      Lift.listed line
      Lift.invalidIf w (t.update && w.ra == 0) what
      let e ← LoadStore.ea w t.update .index
      emit w t e) := by
  unfold indexed LoadStore.ea
  unfold Transfer.ofIndexed? at hrow
  split at hrow
  all_goals cases hrow
  all_goals
    rename_i hxo
    rw [hxo]
    exact ⟨_, _, _, rfl⟩

/-! ## Two floating-point registers -/

/-- The access of a pair. -/
def pairMove (store : Bool) : Move := { item := .pair, store }

section

variable (hview : I.Wordwise env.arch view) (hlayout : env.layout = env.arch)
  (hnext : c.progress.next = .continue) (hrd : w.rd + 1 < 32) {second : Expr}
  (he : ∀ {S}, c.Knows I S e ⟨env.arch.word.ty, a⟩)
  (hsecond : ∀ {S}, c.Knows I S second ⟨env.arch.word.ty, a + .ofNat _ 8⟩)

include hview hlayout hnext hrd he hsecond

theorem storePair_comes :
    Comes env I c (do
      let hi ← Lift.getFpr w.rd
      let lo ← Lift.getFpr (w.rd + 1)
      Lift.store e hi
      Lift.store second lo) False fun next flow => next = .continue ∧
        (pairMove true).Done env I view w a c.memory c.state (env.leave I next flow) := by
  let held := (pairMove true).item.held I env.arch env.host w c.state
  have hheld (c' : Point M) (hstate : c'.state = c.state) (i : Nat) :
      c'.Has I (.fpr env.arch env.host (w.rd + i)) ⟨.f64, held i⟩ :=
    ((Point.knows_fpr (w.rd + i)).has rfl).congr (hstate ▸ rfl)
  refine .give (exec_getFpr hlayout w.rd_lt) (.give (exec_getFpr hlayout hrd) ?_)
  refine .storePiece hview (k := 0) (g := held) Ty.noConfusion rfl he.first.always
    (Nat.zero_mul _).symm (hheld c rfl 0) fun c₁ _ hstate₁ hbytes₁ => ?_
  refine .last (.storePiece hview (k := 1) (g := held) Ty.noConfusion hbytes₁
    hsecond.since.always rfl (hheld c₁ hstate₁ 1) fun c₂ _ hstate₂ hbytes₂ => ?_)
  exact Move.stored_comes (x := pairMove true) hlayout rfl he.since.always
    (Since.next_eq hnext) hbytes₂ (hstate₂.trans hstate₁)

theorem loadPair_comes :
    Comes env I c (do
      let hi ← Lift.load .f64 e
      let lo ← Lift.load .f64 second
      Lift.putFpr w.rd hi
      Lift.putFpr (w.rd + 1) lo) False fun next flow => next = .continue ∧
        (pairMove false).Done env I view w a c.memory c.state (env.leave I next flow) := by
  have hfirst : c.Has I (.load env.host .f64 e) ⟨.f64, _⟩ :=
    Move.fetched_has (x := pairMove false) hview he.first.always (Nat.zero_mul _).symm
  refine .give rfl (.give rfl (.putFpr hlayout w.rd_lt hfirst fun c₁ _ hstate₁ hmemory₁ => ?_))
  have hother : c₁.Has I (.load env.host .f64 second) ⟨.f64, _⟩ :=
    Move.fetched_has (x := pairMove false) (i := 1) hview hsecond.since.always rfl
  rw [hmemory₁] at hother
  refine .last (.putFpr hlayout hrd hother fun c₂ _ hstate₂ hmemory₂ => ?_)
  refine Move.loaded_comes (x := pairMove false) hlayout rfl he.since.always
    (Since.next_eq hnext) (hmemory₂.trans hmemory₁) ?_
  rw [hstate₂, hstate₁]
  rfl

end

theorem pair_comes (hI : I.Floating) (hview : I.Wordwise env.arch view)
    (hlayout : env.layout = env.arch) (hnext : c.progress.next = .continue) (store indexed : Bool) :
    Comes env I c (pair w store indexed) ((pairMove store).Clashes w) fun next flow =>
      next = .continue ∧ (pairMove store).Done env I view w
        ((if indexed then Offset.index else .disp (w.displacement 14)).address env.arch I.order w
          false c.state) c.memory c.state (env.leave I next flow) := by
  have hpair : ∃ what line, pair w store indexed = (do
      Lift.invalidIf w (w.rd % 2 != 0) what
      Lift.listed line
      let e ← LoadStore.ea w false (if indexed then Offset.index else .disp (w.displacement 14))
      let e ← Lift.bind e
      let second ← Lift.bind (← Lift.addrPlus e (.ofNat 64 8))
      if store then do
        let hi ← Lift.getFpr w.rd
        let lo ← Lift.getFpr (w.rd + 1)
        Lift.store e hi
        Lift.store second lo
      else do
        let hi ← Lift.load .f64 e
        let lo ← Lift.load .f64 second
        Lift.putFpr w.rd hi
        Lift.putFpr (w.rd + 1) lo) := by
    rw [← LoadStore.ds_eq]
    unfold pair
    cases indexed <;> exact ⟨_, _, rfl⟩
  obtain ⟨what, line, hpair⟩ := hpair
  rw [hpair]
  generalize (if indexed then Offset.index else .disp (w.displacement 14)) = o
  refine (Comes.guard (Lift.invalidIf_refuses w _ _) fun heven =>
    .noted fun c₁ _ hstate₁ hmemory₁ => ?_).congr (φ := _ ∨ False) ?_
  · rw [← hstate₁, ← hmemory₁]
    obtain ⟨e, hexec, he⟩ := LoadStore.ea_knows (c := c₁) hI.toModular hlayout w false o
    refine .give hexec (.bind (he.has rfl) fun e c₂ _ hstate₂ hmemory₂ he => ?_)
    obtain ⟨second, hexec, hsecond⟩ := Multiple.addrPlus_knows hI.toModular he 8
    refine .give hexec (.bind hsecond.always fun second c₃ _ hstate₃ hmemory₃ hsecond => ?_)
    have : Since c₁ c₃ := Since.trans c₂
    have : Since c c₃ := Since.trans c₁
    have hrd : w.rd + 1 < 32 := Insn.pair_lt w.rd_lt (by simpa using heven)
    have hstate : c₃.state = c₁.state := hstate₃.trans hstate₂
    have hmemory : c₃.memory = c₁.memory := hmemory₃.trans hmemory₂
    rw [← hmemory]
    cases store with
    | true =>
        simp only [if_true]
        have hdone := storePair_comes (w := w) hview hlayout (Since.next_eq hnext) hrd he.since
          hsecond
        rwa [hstate] at hdone
    | false =>
        simp only [Bool.false_eq_true, if_false]
        have hdone := loadPair_comes (w := w) hview hlayout (Since.next_eq hnext) hrd he.since
          hsecond
        rwa [hstate] at hdone
  · simp [Move.Clashes, pairMove]

end FloatingPoint

end PowerLift
