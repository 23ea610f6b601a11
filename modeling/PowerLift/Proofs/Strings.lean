import PowerLift.Proofs.StringBytes
import PowerLift.Proofs.Transfers

/-!
# Strings and multiple registers

String instructions move byte by byte between memory and a row of registers, the others word by
word. Where the number of bytes is only known in the run, an exit stands before each byte.
-/

namespace PowerLift

open Layout (specialOffset)
open Lift (exec)
open Point (Knows Has Step Since)
open LoadStore (Offset)
open PowerLift.Expr (un bin)

variable {M : Type} {I : Interp M} {env : Env} {c : Point M} {w : Insn} {view : M → ByteMemory}

namespace Multiple

/-! ## What is moved -/

section

variable (arch : Arch) (host order : ByteOrder) (view : M → ByteMemory)

/-- The first `n` bytes of a string have been moved: loaded to registers, the rest of which is zero,
or stored. -/
def StringMoved (isLoad : Bool) (first : Nat) (ea : BitVec arch.word.ty.bits) (memory : M)
    (σ : GuestState) (n : Nat) (memory' : M) (σ' : GuestState) : Prop :=
  match isLoad with
  | true =>
      memory' = memory ∧ σ.Filled arch order (register first) ((n + 3) / 4)
        (fun k => (stringWord (fun i => view memory (address arch ea i)) n k).setWidth _) σ'
  | false =>
      (view memory).Filled host .i8 (address arch ea) n
        (stringByte arch order σ first) (view memory') ∧ σ' = σ

/-- The first `n` words of a row have been moved between the low parts of registers and memory. -/
def WordsMoved (isLoad : Bool) (first : Nat) (ea : BitVec arch.word.ty.bits) (memory : M)
    (σ : GuestState) (n : Nat) (memory' : M) (σ' : GuestState) : Prop :=
  match isLoad with
  | true =>
      memory' = memory ∧ σ.Filled arch order (first + ·) n
        (fun k => ((view memory).read host (address arch ea (4 * k)) .i32).setWidth _) σ'
  | false =>
      (view memory).Filled host .i32 (fun k => address arch ea (4 * k)) n
        (fun k => (σ.operand arch order (first + k)).setWidth 32) (view memory') ∧ σ' = σ

end

/-- Behind a move control goes on at the next instruction, in another block if this one stops. -/
def GoesOn (env : Env) (I : Interp M) (stops : Bool) (moved : M → GuestState → Prop)
    (out : Left M) : Prop :=
  ∃ memory σ, moved memory σ ∧ out = ⟨env.nia, .boring, memory,
    if stops then σ.withAddress env.arch I.order env.nia else σ⟩

section

variable (env : Env) (I : Interp M) (view : M → ByteMemory) (isLoad : Bool) (first : Nat)
  (a : BitVec env.arch.word.ty.bits) (memory : M) (σ : GuestState)

/-- At a point of the run, the first `i` bytes of a string have been moved. -/
def StringAt (i : Nat) (c : Point M) : Prop :=
  StringMoved env.arch env.host I.order view isLoad first a memory σ i c.memory c.state

/-- At a point of the run, the first `i` words of a row have been moved. -/
def WordsAt (i : Nat) (c : Point M) : Prop :=
  WordsMoved env.arch env.host I.order view isLoad first a memory σ i c.memory c.state

/-- What is due before byte `i` of a string of `n` bytes: the block stops, and if the string goes
on to here, it is moved as a whole. -/
def StringDue (n i : Nat) (next : Continuation) (flow : Flow M) : Prop :=
  next = .stop .boring ∧ (i ≤ n → GoesOn env I true
    (StringMoved env.arch env.host I.order view isLoad first a memory σ n)
    (env.leave I next flow))

end

section

variable {arch : Arch} {host order : ByteOrder} {isLoad : Bool} {first : Nat}
  {ea : BitVec arch.word.ty.bits} {memory : M} {σ : GuestState}

theorem stringMoved_none :
    StringMoved arch host order view isLoad first ea memory σ 0 memory σ := by
  cases isLoad with
  | true => exact ⟨rfl, GuestState.filled_none⟩
  | false => exact ⟨ByteMemory.filled_none, rfl⟩

theorem wordsMoved_none :
    WordsMoved arch host order view isLoad first ea memory σ 0 memory σ := by
  cases isLoad with
  | true => exact ⟨rfl, GuestState.filled_none⟩
  | false => exact ⟨ByteMemory.filled_none, rfl⟩

end

/-! ## One byte -/

section

variable {ea n addr : Expr} {first i : Nat} {isLoad : Bool} {f : Unit → Lift Unit}

/-- Where a byte of a string stands in its word. -/
def shift (i : Nat) : Expr := .u8 (.ofNat 8 (24 - 8 * (i % 4)))

theorem shift_toNat (i : Nat) : (BitVec.ofNat 8 (24 - 8 * (i % 4))).toNat = 24 - 8 * (i % 4) := by
  rw [BitVec.toNat_ofNat]
  omega

theorem shift_lt (i : Nat) {n : Nat} (hn : 32 ≤ n) :
    (BitVec.ofNat 8 (24 - 8 * (i % 4))).toNat < n := by
  rw [shift_toNat]
  omega

/-- A byte is loaded and comes into its register. -/
def fillByte (addr : Expr) (first i : Nat) : Lift Unit := do
  let byte ← Lift.widen (← Lift.load .i8 addr) false
  Lift.putGpr (register first (i / 4)) (bin (← Lift.wordOp .or)
    (← Lift.getGpr (register first (i / 4))) (bin (← Lift.wordOp .shl) byte (shift i)))

/-- A register is cleared before its first byte is loaded. -/
def loadByte (env : Env) (addr : Expr) (first i : Nat) : Lift Unit :=
  if i % 4 = 0 then do
    Lift.putGpr (register first (i / 4)) (env.imm 0)
    fillByte addr first i
  else fillByte addr first i

/-- A byte is stored from its register. -/
def storeByte (addr : Expr) (first i : Nat) : Lift Unit := do
  let word ← Lift.low32 (← Lift.getGpr (register first (i / 4)))
  Lift.store addr (un (.cast .low32to8) (bin .shr32 word (shift i)))

theorem moveByte_none : moveByte ea first isLoad none i >>= f = (do
    let env ← read
    let addr ← Lift.addrPlus ea (.ofNat 64 i)
    (if isLoad then loadByte env addr first i else storeByte addr first i) >>= f) := by
  have hmove : moveByte ea first isLoad none i = (do
      let env ← read
      let addr ← Lift.addrPlus ea (.ofNat 64 i)
      if isLoad then loadByte env addr first i else storeByte addr first i) := rfl
  simp only [hmove, bind_assoc]

theorem moveByte_some : moveByte ea first isLoad (some n) i >>= f = (do
    let env ← read
    Lift.exit (bin (.cmpLT .w32 .unsigned) n (.u32 (.ofNat 32 (i + 1)))) .boring env.nia
    let addr ← Lift.addrPlus ea (.ofNat 64 i)
    (if isLoad then loadByte env addr first i else storeByte addr first i) >>= f) := by
  have hmove : moveByte ea first isLoad (some n) i = (do
      let env ← read
      Lift.exit (bin (.cmpLT .w32 .unsigned) n (.u32 (.ofNat 32 (i + 1)))) .boring env.nia
      let addr ← Lift.addrPlus ea (.ofNat 64 i)
      if isLoad then loadByte env addr first i else storeByte addr first i) := rfl
  simp only [hmove, bind_assoc]

theorem addrPlus_knows (hI : I.Modular) {a : BitVec env.arch.word.ty.bits}
    (he : ∀ {S}, c.Knows I S ea ⟨env.arch.word.ty, a⟩) (i : Nat) :
    ∃ addr, exec env c.progress (Lift.addrPlus ea (.ofNat 64 i)) = (.ok addr, c.progress) ∧
      ∀ {S}, c.Knows I S addr ⟨env.arch.word.ty, a + .ofNat _ i⟩ := by
  have hwidth : (BitVec.ofNat 64 i).setWidth env.arch.word.ty.bits = .ofNat _ i :=
    BitVec.setWidth_ofNat_of_le (by rcases env.arch.word_bits with h | h <;> omega) i
  unfold Lift.addrPlus
  by_cases hzero : BitVec.ofNat 64 i = 0
  · rw [hzero, BitVec.ofNat_eq_ofNat, BitVec.setWidth_zero] at hwidth
    refine ⟨ea, by rw [if_pos hzero]; rfl, fun {S} => he.congr (congrArg (Value.mk _) ?_)⟩
    rw [← hwidth]
    exact (BitVec.add_zero a).symm
  · rw [if_neg hzero]
    refine ⟨_, rfl, fun {S} => ?_⟩
    rw [← hwidth]
    exact he.add (Point.knows_imm _) hI

variable {a : BitVec env.arch.word.ty.bits} {memory : M} {σ : GuestState} {live φ : Prop}
  {Q : Continuation → Flow M → Prop}

theorem storeByte_comes (hI : I.Scalar) (hview : I.Bytewise view) (hlayout : env.layout = env.arch)
    (hi : i < 128) (ha : c.Has I addr ⟨env.arch.word.ty, a + .ofNat _ i⟩)
    (hmoved : live → StringAt env I view false first a memory σ i c)
    (hf : ∀ c' [Since c c'], (live → StringAt env I view false first a memory σ (i + 1) c') →
      Comes env I c' (f ()) φ Q) :
    Comes env I c (storeByte addr first i >>= f) φ Q := by
  have hword : c.Has I (env.low32 (.gpr env.arch (register first (i / 4)))) _ :=
    (Point.knows_word hI.toBitwise env _).has rfl
  have hshifted : c.Has I (bin .shr32 _ (shift i)) _ :=
    hword.bin (Knows.const (.u8 _)).always rfl (hI.shr .w32 _ _ (shift_lt i (Nat.le_refl 32)))
  rw [shift_toNat] at hshifted
  have hbyte : c.Has I (un (.cast .low32to8) (bin .shr32 _ (shift i)))
      ⟨.i8, stringByte env.arch I.order c.state first i⟩ :=
    hshifted.un rfl (hI.cast .low32to8 rfl .i32 rfl _)
  unfold storeByte
  simp only [bind_assoc]
  refine .give (exec_getGpr hlayout (register_lt _ _)) (.give rfl ?_)
  refine .store ha hbyte Ty.noConfusion fun c' _ hstate hmemory => hf c' fun hlive => ?_
  obtain ⟨hfilled, rfl⟩ := hmoved hlive
  rw [StringAt, StringMoved, hmemory, hstate, hview.store _ _ _ _ Ty.noConfusion]
  refine ⟨hfilled.put Ty.noConfusion fun j hj => ?_, rfl⟩
  exact ByteMemory.apart_row env.arch a hj (Nat.le_trans hi (by decide))

/-- The words of the registers that are loaded. -/
theorem fillByte_comes (hI : I.Scalar) (hview : I.Bytewise view) (hlayout : env.layout = env.arch)
    (hi : i < 128) (ha : c.Has I addr ⟨env.arch.word.ty, a + .ofNat _ i⟩)
    (hcleared : live → c.memory = memory ∧
      σ.Filled env.arch I.order (register first) (i / 4 + 1)
        (fun k => (stringWord (fun j => view memory (address env.arch a j)) i k).setWidth _)
        c.state)
    (hf : ∀ c' [Since c c'], (live → StringAt env I view true first a memory σ (i + 1) c') →
      Comes env I c' (f ()) φ Q) :
    Comes env I c (fillByte addr first i >>= f) φ Q := by
  have hloaded : c.Has I (.load env.host .i8 addr) ⟨Width.ty .w8, _⟩ :=
    ha.load hview env.host Ty.noConfusion
  rw [ByteMemory.read_byte] at hloaded
  obtain ⟨e, hexec, hbyte⟩ := hloaded.widen hI Width.noConfusion false
  rw [if_neg Bool.false_ne_true] at hbyte
  have hwidth : 32 ≤ env.arch.word.width.bits := by cases env.arch <;> decide
  have hshifted : c.Has I (bin (.shl env.arch.word.width) e (shift i)) _ :=
    hbyte.bin (Knows.const (.u8 _)).always rfl (hI.shl _ _ _ (shift_lt i hwidth))
  rw [shift_toNat] at hshifted
  have hheld : c.Has I (.gpr env.arch (register first (i / 4))) _ :=
    (Point.knows_gpr env.arch _).has rfl
  have hfilled : c.Has I (bin (.or env.arch.word.width) _ _) _ :=
    hheld.bin hshifted rfl (hI.or _ _ _)
  unfold fillByte
  simp only [bind_assoc]
  refine .give rfl (.give hexec (.give rfl (.give (exec_getGpr hlayout (register_lt _ _))
    (.give rfl ?_))))
  refine .putGpr hlayout (register_lt _ _) hfilled fun c' _ hstate hmemory => hf c' fun hlive => ?_
  obtain ⟨hsame, hwords⟩ := hcleared hlive
  refine ⟨hmemory.trans hsame, ?_⟩
  rw [show (i + 1 + 3) / 4 = i / 4 + 1 by omega, hstate, hwords.words (i / 4) (Nat.lt_succ_self _),
    hsame]
  have hgrown := stringWord_grown env.arch (fun j => view memory (address env.arch a j)) i
  refine (congrArg (σ.Filled env.arch I.order _ _ _) (congrArg _ hgrown)).mpr ?_
  refine hwords.put (.inr rfl) (fun j hj => register_ne hj (by omega)) fun j hj => ?_
  rw [stringWord_full (by omega)]

theorem loadByte_comes (hI : I.Scalar) (hview : I.Bytewise view) (hlayout : env.layout = env.arch)
    (hi : i < 128) (ha : ∀ {S}, c.Knows I S addr ⟨env.arch.word.ty, a + .ofNat _ i⟩)
    (hmoved : live → StringAt env I view true first a memory σ i c)
    (hf : ∀ c' [Since c c'], (live → StringAt env I view true first a memory σ (i + 1) c') →
      Comes env I c' (f ()) φ Q) :
    Comes env I c (loadByte env addr first i >>= f) φ Q := by
  unfold loadByte
  by_cases hfirst : i % 4 = 0
  · rw [if_pos hfirst, bind_assoc]
    refine .putGpr hlayout (register_lt _ _) (Point.knows_imm 0).always
      fun c₁ _ hstate hmemory => ?_
    refine fillByte_comes hI hview hlayout hi ha.since.always (fun hlive => ?_) fun c' _ hmoved' =>
      have : Since c c' := .trans c₁
      hf c' hmoved'
    obtain ⟨hsame, hwords⟩ := hmoved hlive
    refine ⟨hmemory.trans hsame, ?_⟩
    have hcleared : (stringWord (fun j => view memory (address env.arch a j)) i (i / 4)).setWidth
        env.arch.word.ty.bits = (0 : BitVec 64).setWidth _ := by
      rw [show stringWord _ i (i / 4) = _ from congrArg (stringWord _ · (i / 4))
        (show i = 4 * (i / 4) by omega), stringWord_start]
      simp
    rw [hstate, ← hcleared]
    rw [show (i + 3) / 4 = i / 4 by omega] at hwords
    exact hwords.put (.inl rfl) (fun j hj => register_ne hj (by omega)) fun j hj => rfl
  · rw [if_neg hfirst]
    refine fillByte_comes hI hview hlayout hi ha.always (fun hlive => ?_) hf
    rw [show i / 4 + 1 = (i + 3) / 4 by omega]
    exact hmoved hlive

/-- A byte is moved. What it leaves matters only where it belongs to the string. -/
theorem moveByte_comes (live : Prop) (hI : I.Scalar) (hview : I.Bytewise view)
    (hlayout : env.layout = env.arch) (hi : i < 128)
    (he : ∀ {S}, c.Knows I S ea ⟨env.arch.word.ty, a⟩)
    (hmoved : live → StringAt env I view isLoad first a memory σ i c)
    (hf : ∀ c' [Since c c'], (live → StringAt env I view isLoad first a memory σ (i + 1) c') →
      Comes env I c' (f ()) φ Q) :
    Comes env I c (do
      let addr ← Lift.addrPlus ea (.ofNat 64 i)
      (if isLoad then loadByte env addr first i else storeByte addr first i) >>= f) φ Q := by
  obtain ⟨addr, hexec, ha⟩ := addrPlus_knows hI.toModular he i
  refine .give hexec ?_
  cases isLoad with
  | true => exact loadByte_comes hI hview hlayout hi ha hmoved hf
  | false => exact storeByte_comes hI hview hlayout hi ha.always hmoved hf

end

/-! ## Whole strings -/

section

variable {e t : Expr} {a : BitVec env.arch.word.ty.bits}

/-- A string whose length is known. -/
theorem known_comes {first n : Nat} {isLoad : Bool} (hI : I.Scalar) (hview : I.Bytewise view)
    (hlayout : env.layout = env.arch) (hn : n ≤ 128)
    (he : ∀ {S}, c.Knows I S e ⟨env.arch.word.ty, a⟩) (hnext : c.progress.next = .continue) :
    Comes env I c (moveBytes e first isLoad n none) False fun next flow => next = .continue ∧
      GoesOn env I false
        (StringMoved env.arch env.host I.order view isLoad first a c.memory c.state n)
        (env.leave I next flow) := by
  refine .last (.repeated (P := StringAt env I view isLoad first a c.memory c.state)
    (W := fun _ => _) (fun i hi c' _ f' hmoved hf => ?_) (fun c' _ hmoved => ?_) stringMoved_none)
  · rw [moveByte_none]
    refine .give rfl (moveByte_comes True hI hview hlayout (by omega) he.since
      (fun _ => hmoved) fun c'' _ hmoved' => ?_)
    have : Since c c'' := .trans c'
    exact hf c'' (hmoved' trivial)
  · exact .done (Since.next_eq hnext) ⟨rfl, _, _, hmoved, rfl⟩

/-- A string whose length is a number that only the run has. Behind its last byte an exit is taken,
and what would follow does not matter. -/
theorem counted_comes (first : Nat) (isLoad : Bool) (hI : I.Scalar) (hview : I.Bytewise view)
    (hlayout : env.layout = env.arch) {x : BitVec 32} (hx : x.toNat < 128)
    (ht : ∀ {S}, c.Knows I S t ⟨.i32, x⟩) (he : ∀ {S}, c.Knows I S e ⟨env.arch.word.ty, a⟩) :
    Comes env I c (moveBytes e first isLoad 128 (some t) >>= fun _ => Lift.stopAtNext .boring) False
      fun next flow => next = .stop .boring ∧
        GoesOn env I true
          (StringMoved env.arch env.host I.order view isLoad first a c.memory c.state x.toNat)
          (env.leave I next flow) := by
  refine (Comes.repeated
    (P := fun i c' => i ≤ x.toNat → StringAt env I view isLoad first a c.memory c.state i c')
    (W := StringDue env I view isLoad first a c.memory c.state x.toNat)
    (fun i hi c' _ f' hmoved hf => ?_) (fun c' _ _ => ?_) fun _ => stringMoved_none).mono Iff.rfl
      fun next flow h => ⟨h.1, h.2 (Nat.zero_le _)⟩
  · rw [moveByte_some]
    have hguard : c'.Has I (bin (.cmpLT .w32 .unsigned) t (.u32 (.ofNat 32 (i + 1))))
        ⟨.i1, .ofBool (decide (x.toNat < i + 1))⟩ := by
      have hlt : (BitVec.ofNat 32 (i + 1)).toNat = i + 1 := by
        rw [BitVec.toNat_ofNat]
        omega
      refine ht.since.always.bin (Knows.const (.u32 _)).always rfl ?_
      refine (hI.cmpLT .w32 .unsigned x _).trans ?_
      simp only [Sign.int, Nat.cast_lt]
      exact congrArg (fun m => BitVec.ofBool (decide (x.toNat < m))) hlt
    refine .give rfl (.exit hlayout hguard fun c₁ _ hmachine => ?_)
    have hmemory₁ : c₁.memory = c'.memory := congrArg Machine.memory hmachine
    have hstate₁ : c₁.state = c'.state := congrArg Machine.state hmachine
    have hmoved₁ (hlive : i < x.toNat) :
        StringAt env I view isLoad first a c.memory c.state i c₁ := by
      rw [StringAt, hmemory₁, hstate₁]
      exact hmoved (Nat.le_of_lt hlive)
    refine moveByte_comes (i < x.toNat) hI hview hlayout hi he.since hmoved₁ fun c₂ _ hmoved₂ => ?_
    have : Since c c₂ := .trans c₁
    refine (hf c₂ hmoved₂).mono Iff.rfl fun next flow h => ⟨h.1, fun hle => ?_⟩
    rcases Nat.lt_or_eq_of_le hle with hlt | rfl
    · rw [if_neg (by simpa using Nat.succ_le_of_lt hlt)]
      exact h.2 hlt
    · rw [if_pos (by simp)]
      refine ⟨_, _, hmoved (Nat.le_refl _), ?_⟩
      change env.exitTo I .boring env.nia c'.machine = _
      rw [Env.exitTo_eq rfl rfl, show env.cutAddress env.nia = env.nia from env.cutAddress_cut _]
      rfl
  · exact .stopAtNext hlayout ⟨rfl, fun hle => absurd hx (Nat.not_lt.mpr hle)⟩

end

/-- The number of bytes of a string. -/
def count (arch : Arch) (indexed : Bool) (w : Insn) (σ : GuestState) : Nat :=
  if indexed then (σ (specialOffset arch .xerBc) &&& 0x7F).toNat
  else if w.rb = 0 then 32 else w.rb

/-- What is added to the base register. -/
def offset (indexed : Bool) : Offset := if indexed then .index else .disp 0

/-- Loads that would overwrite a register of their own address. -/
def StringClashes (isLoad indexed : Bool) (w : Insn) : Prop :=
  isLoad = true ∧
    if indexed then w.rd = w.ra ∨ w.rd = w.rb
    else w.ra ≠ 0 ∧ ∃ k < ((if w.rb = 0 then 32 else w.rb) + 3) / 4, register w.rd k = w.ra

instance (isLoad indexed : Bool) (w : Insn) : Decidable (StringClashes isLoad indexed w) :=
  inferInstanceAs (Decidable (_ ∧ if indexed = true then _ else _))

theorem eaOr0_knows (hlayout : env.layout = env.arch) (w : Insn) :
    ∃ e, exec env c.progress (Lift.eaOr0 w.ra) = (.ok e, c.progress) ∧
      c.Knows I (· = c.state) e
        ⟨env.arch.word.ty, (Offset.disp 0).address env.arch I.order w false c.state⟩ := by
  have hvalue : (Offset.disp 0).address env.arch I.order w false c.state =
      c.state.base env.arch I.order w.ra := by
    simp [Offset.address, Offset.value, GuestState.base]
  rw [hvalue]
  exact getBase_knows hlayout w.ra_lt c

theorem knows_count (hI : I.Bitwise) (arch : Arch) :
    c.Knows I (· = c.state)
      (un (.cast .zext8to32) (bin .and8 (.get (specialOffset arch .xerBc) .i8) (.u8 0x7F)))
      ⟨.i32, (c.state (specialOffset arch .xerBc) &&& 0x7F).setWidth 32⟩ := by
  have hread : c.Knows I (· = c.state) (.get (specialOffset arch .xerBc) .i8)
      (.i8 (c.state (specialOffset arch .xerBc))) :=
    ⟨rfl, fun m _ hm => hm ▸ congrArg (Value.mk .i8) GuestState.read_i8⟩
  have hcut : c.Knows I (· = c.state)
      (bin .and8 (.get (specialOffset arch .xerBc) .i8) (.u8 0x7F)) _ :=
    hread.bin (.const (.u8 0x7F)) rfl (hI.and .w8 _ _)
  exact hcut.un rfl (hI.cast .zext8to32 rfl .i8 rfl _)

/-- The effective address is held before anything moves. -/
theorem held_comes {line : String} {x : Lift Expr} {f : Expr → Lift Unit} {o : Offset} {φ : Prop}
    {Q : Continuation → Flow M → Prop}
    (hx : ∀ c' : Point M, ∃ e, exec env c'.progress x = (.ok e, c'.progress) ∧
      c'.Knows I (· = c'.state) e
        ⟨env.arch.word.ty, o.address env.arch I.order w false c'.state⟩)
    (hf : ∀ t c' [Since c c'], c'.state = c.state → c'.memory = c.memory →
      (∀ {S}, c'.Knows I S t ⟨env.arch.word.ty, o.address env.arch I.order w false c.state⟩) →
      Comes env I c' (f t) φ Q) :
    Comes env I c (do
      Lift.listed line
      let ea ← Lift.bind (← x)
      f ea) φ Q := by
  refine .listed fun c₁ _ hmachine₁ => ?_
  have hstate₁ : c₁.state = c.state := congrArg Machine.state hmachine₁
  obtain ⟨e, hexec, he⟩ := hx c₁
  rw [hstate₁] at he
  refine .give hexec (.bind (he.has hstate₁) fun t c₂ _ hstate₂ hmemory₂ ht => ?_)
  exact hf t c₂ (hstate₂.trans hstate₁) (hmemory₂.trans (congrArg Machine.memory hmachine₁)) ht

section

variable (hI : I.Scalar) (hview : I.Bytewise view)
  (hlayout : env.layout = env.arch)

include hI hview hlayout

theorem immediate_comes (isLoad : Bool) {line : String} (hnext : c.progress.next = .continue) :
    Comes env I c (do
      let n := if w.rb = 0 then 32 else w.rb
      if isLoad then
        let hit := (List.range ((n + 3) / 4)).any fun k => (w.rd + k) % 32 == w.ra
        Lift.invalidIf w (hit && w.ra != 0) "lswi with rA in the loaded range"
      Lift.listed line
      let ea ← Lift.bind (← Lift.eaOr0 w.ra)
      moveBytes ea w.rd isLoad n none)
      (StringClashes isLoad false w) fun next flow => next = .continue ∧
        GoesOn env I false (StringMoved env.arch env.host I.order view isLoad w.rd
          ((offset false).address env.arch I.order w false c.state) c.memory c.state
          (count env.arch false w c.state)) (env.leave I next flow) := by
  have hn : (if w.rb = 0 then 32 else w.rb) ≤ 128 := by
    have hrb := w.rb_lt
    split <;> omega
  dsimp only
  refine (Comes.guardWhen (fun _ => Lift.invalidIf_refuses w _ _) fun _ => held_comes
    (fun _ => eaOr0_knows hlayout w) fun t c' _ hstate hmemory ht => ?_).congr (φ := _ ∨ False) ?_
  · rw [← hstate, ← hmemory]
    exact known_comes hI hview hlayout hn (hstate ▸ ht) (Since.next_eq hnext)
  · simp [StringClashes, register, and_comm]

theorem indexed_comes (isLoad : Bool) {line : String} :
    Comes env I c (do
      if isLoad then Lift.invalidIf w (w.rd == w.ra || w.rd == w.rb) "lswx with rD = rA or rB"
      Lift.listed line
      let ea ← Lift.bind (← Lift.eaOr0Idx w.ra w.rb)
      let n ← Lift.bind (un (.cast .zext8to32) (← Lift.getXerBc))
      moveBytes ea w.rd isLoad 128 (some n)
      Lift.stopAtNext .boring)
      (StringClashes isLoad true w) fun next flow => next = .stop .boring ∧
        GoesOn env I true (StringMoved env.arch env.host I.order view isLoad w.rd
          ((offset true).address env.arch I.order w false c.state) c.memory c.state
          (count env.arch true w c.state)) (env.leave I next flow) := by
  refine (Comes.guardWhen (fun _ => Lift.invalidIf_refuses w _ _) fun _ => held_comes
    (fun _ => LoadStore.ea_knows hI.toModular hlayout w false .index)
      fun t c₁ _ hstate₁ hmemory₁ ht => ?_).congr (φ := _ ∨ False) ?_
  · have hcount := (knows_count (c := c₁) hI.toBitwise env.layout).has rfl
    refine .give rfl (.bind hcount fun n c₂ _ hstate₂ hmemory₂ hn => ?_)
    rw [hstate₁, hlayout] at hn
    have hstate : c₂.state = c.state := hstate₂.trans hstate₁
    have hmemory : c₂.memory = c.memory := hmemory₂.trans hmemory₁
    have hx : ((c.state (specialOffset env.arch .xerBc) &&& 0x7F).setWidth 32).toNat =
        count env.arch true w c.state := by
      rw [BitVec.toNat_setWidth_of_le (by decide)]
      rfl
    have hlt : count env.arch true w c.state < 128 := by
      rw [count, if_pos rfl, BitVec.toNat_and]
      exact Nat.lt_succ_of_le Nat.and_le_right
    have hmoved := counted_comes w.rd isLoad hI hview hlayout (hx ▸ hlt) hn
      ht.since
    rwa [hx, hstate, hmemory] at hmoved
  · simp [StringClashes]

end

/-! ## Words -/

section

variable (hI : I.Scalar) (hview : I.Bytewise view)
  (hlayout : env.layout = env.arch)

include hI hview hlayout

theorem moveWord_comes {ea : Expr} {isLoad : Bool} {first i : Nat} {f : Unit → Lift Unit}
    {a : BitVec env.arch.word.ty.bits} {memory : M} {σ : GuestState} {φ : Prop}
    {Q : Continuation → Flow M → Prop} (hi : first + i < 32)
    (he : ∀ {S}, c.Knows I S ea ⟨env.arch.word.ty, a⟩)
    (hmoved : WordsAt env I view isLoad first a memory σ i c)
    (hf : ∀ c' [Since c c'], WordsAt env I view isLoad first a memory σ (i + 1) c' →
      Comes env I c' (f ()) φ Q) :
    Comes env I c ((do
      let addr ← Lift.addrPlus ea (.ofNat 64 (4 * i))
      let r := first + i
      if isLoad then Lift.putGpr r (← Lift.widen (← Lift.load .i32 addr) false)
      else Lift.store addr (← Lift.low32 (← Lift.getGpr r))) >>= f) φ Q := by
  obtain ⟨addr, hexec, ha⟩ := addrPlus_knows hI.toModular he (4 * i)
  rw [bind_assoc]
  refine .give hexec ?_
  cases isLoad with
  | true =>
      obtain ⟨hsame, hfilled⟩ := hmoved
      simp only [if_true, bind_assoc]
      have hloaded : c.Has I (.load env.host .i32 addr) ⟨Width.ty .w32, _⟩ :=
        ha.always.load hview env.host Ty.noConfusion
      obtain ⟨e, hexec, hwide⟩ := hloaded.widen hI Width.noConfusion false
      refine .give rfl (.give hexec (.putGpr hlayout hi hwide fun c' _ hstate hmemory => ?_))
      refine hf c' ⟨hmemory.trans hsame, ?_⟩
      rw [hstate, hsame]
      exact hfilled.put (.inl rfl) (fun j hj => by simpa using Nat.ne_of_lt hj) fun _ _ => rfl
  | false =>
      obtain ⟨hfilled, rfl⟩ := hmoved
      simp only [Bool.false_eq_true, if_false, bind_assoc]
      have hword : c.Has I (env.low32 (.gpr env.arch (first + i))) _ :=
        (Point.knows_word hI.toBitwise env _).has rfl
      refine .give (exec_getGpr hlayout hi) (.give rfl (.store ha.always hword Ty.noConfusion
        fun c' _ hstate hmemory => hf c' ?_))
      rw [WordsAt, WordsMoved, hmemory, hstate, hview.store _ _ _ _ Ty.noConfusion]
      refine ⟨hfilled.put Ty.noConfusion fun j hj => ?_, rfl⟩
      refine ByteMemory.apart_row env.arch a (show 4 * j + 4 ≤ 4 * i by omega) ?_
      change 4 * i + 4 ≤ _
      omega

theorem moveWords_comes {ea : Expr} {isLoad : Bool} {first : Nat} {a : BitVec env.arch.word.ty.bits}
    (he : ∀ {S}, c.Knows I S ea ⟨env.arch.word.ty, a⟩) (hnext : c.progress.next = .continue) :
    Comes env I c ((List.range (32 - first)).forM fun i => do
      let addr ← Lift.addrPlus ea (.ofNat 64 (4 * i))
      let r := first + i
      if isLoad then Lift.putGpr r (← Lift.widen (← Lift.load .i32 addr) false)
      else Lift.store addr (← Lift.low32 (← Lift.getGpr r))) False fun next flow =>
        next = .continue ∧ GoesOn env I false
          (WordsMoved env.arch env.host I.order view isLoad first a c.memory c.state (32 - first))
          (env.leave I next flow) := by
  refine .last (.repeated (P := WordsAt env I view isLoad first a c.memory c.state)
    (W := fun _ => _) (fun i hi c' _ f' hmoved hf => ?_) (fun c' _ hmoved => ?_) wordsMoved_none)
  · refine moveWord_comes hI hview hlayout (by omega) he.since hmoved fun c'' _ hmoved' => ?_
    have : Since c c'' := .trans c'
    exact hf c'' hmoved'
  · exact .done (Since.next_eq hnext) ⟨rfl, _, _, hmoved, rfl⟩

theorem words_comes (isLoad : Bool) {line : String} (hnext : c.progress.next = .continue) :
    Comes env I c (do
      if isLoad then Lift.invalidIf w (w.rd ≤ w.ra) "lmw with rA in the loaded range"
      Lift.listed line
      let ea ← Lift.bind (← Lift.eaOr0Disp w.ra w.simm64)
      (List.range (32 - w.rd)).forM fun i => do
        let addr ← Lift.addrPlus ea (.ofNat 64 (4 * i))
        let r := w.rd + i
        if isLoad then Lift.putGpr r (← Lift.widen (← Lift.load .i32 addr) false)
        else Lift.store addr (← Lift.low32 (← Lift.getGpr r)))
      (isLoad = true ∧ w.rd ≤ w.ra) fun next flow => next = .continue ∧
        GoesOn env I false (WordsMoved env.arch env.host I.order view isLoad w.rd
          ((Offset.disp w.simm64).address env.arch I.order w false c.state) c.memory c.state
          (32 - w.rd)) (env.leave I next flow) := by
  refine (Comes.guardWhen (fun _ => Lift.invalidIf_refuses w _ _) fun _ => held_comes
    (fun _ => LoadStore.ea_knows hI.toModular hlayout w false (.disp w.simm64))
      fun t c' _ hstate hmemory ht => ?_).congr (φ := _ ∨ False) (by simp)
  rw [← hstate, ← hmemory]
  exact moveWords_comes hI hview hlayout (hstate ▸ ht) (Since.next_eq hnext)

end

end Multiple

/-! ## Forms -/

/-- The string instructions: whether they load, and whether their length is in a register. -/
inductive Insn.StringForm (w : Insn) : Bool → Bool → Prop where
  | lswi (hopcode : w.opcode = 31) (hxo : w.xo10 = 597) : StringForm w true false
  | lswx (hopcode : w.opcode = 31) (hxo : w.xo10 = 533) : StringForm w true true
  | stswi (hopcode : w.opcode = 31) (hxo : w.xo10 = 725) : StringForm w false false
  | stswx (hopcode : w.opcode = 31) (hxo : w.xo10 = 661) : StringForm w false true

/-- The instructions for the words of all registers from one on: whether they load. -/
inductive Insn.WordsForm (w : Insn) : Bool → Prop where
  | lmw (hopcode : w.opcode = 46) : WordsForm w true
  | stmw (hopcode : w.opcode = 47) : WordsForm w false

theorem Insn.StringForm.route {isLoad indexed : Bool} (hform : w.StringForm isLoad indexed) :
    Route.find? w = some ⟨.xo10 [533, 597, 661, 725], [], .multiple⟩ ∧ w.opcode = 31 := by
  have hroutes : ∀ xo ∈ [533, 597, 661, 725], Route.ofXo10 xo =
      some ⟨.xo10 [533, 597, 661, 725], [], .multiple⟩ := by
    decide
  cases hform <;> rename_i hopcode hxo <;>
    exact ⟨(Route.find?_register hopcode).trans (hroutes _ (by simp [hxo])), hopcode⟩

theorem Insn.WordsForm.route {isLoad : Bool} (hform : w.WordsForm isLoad) :
    Route.find? w = some ⟨.any, [], .multiple⟩ ∧ (w.opcode = 46 ∨ w.opcode = 47) := by
  cases hform with
  | lmw hopcode => exact ⟨Route.find?_only (by rw [hopcode]; rfl), .inl hopcode⟩
  | stmw hopcode => exact ⟨Route.find?_only (by rw [hopcode]; rfl), .inr hopcode⟩

namespace Multiple

section

variable (hI : I.Scalar) (hview : I.Bytewise view) (hlayout : env.layout = env.arch)
  (hnext : c.progress.next = .continue)

include hI hview hlayout hnext

theorem liftString_comes {isLoad indexed : Bool} (hform : w.StringForm isLoad indexed) :
    Comes env I c (lift w) (StringClashes isLoad indexed w) fun next flow =>
      next = (if indexed then .stop .boring else .continue) ∧
        GoesOn env I indexed (StringMoved env.arch env.host I.order view isLoad w.rd
          ((offset indexed).address env.arch I.order w false c.state) c.memory c.state
          (count env.arch indexed w c.state)) (env.leave I next flow) := by
  have hlift : lift w = string w := by
    cases hform <;> rename_i hopcode hxo <;>
      · rw [lift, hopcode, hxo]
        rfl
  have hload : (w.xo10 == 597 || w.xo10 == 533) = isLoad := by
    cases hform <;> rename_i hopcode hxo <;> rw [hxo] <;> rfl
  have himmediate : (w.xo10 == 597 || w.xo10 == 725) = !indexed := by
    cases hform <;> rename_i hopcode hxo <;> rw [hxo] <;> rfl
  rw [hlift, string, hload, himmediate]
  cases indexed with
  | false => exact immediate_comes hI hview hlayout isLoad hnext
  | true => exact indexed_comes hI hview hlayout isLoad

theorem liftWords_comes {isLoad : Bool} (hform : w.WordsForm isLoad) :
    Comes env I c (lift w) (isLoad = true ∧ w.rd ≤ w.ra) fun next flow => next = .continue ∧
      GoesOn env I false (WordsMoved env.arch env.host I.order view isLoad w.rd
        ((Offset.disp w.simm64).address env.arch I.order w false c.state) c.memory c.state
        (32 - w.rd)) (env.leave I next flow) := by
  cases hform with
  | lmw hopcode =>
      rw [show lift w = registers w by rw [lift, hopcode]; rfl, registers, hopcode]
      exact words_comes hI hview hlayout true hnext
  | stmw hopcode =>
      rw [show lift w = registers w by rw [lift, hopcode]; rfl, registers, hopcode]
      exact words_comes hI hview hlayout false hnext

end

theorem stringByte_withAddress (arch : Arch) (order : ByteOrder) (σ : GuestState) (a : BitVec 64)
    (first i : Nat) : stringByte arch order (σ.withAddress arch order a) first i =
      stringByte arch order σ first i := by
  have hoperand : (σ.withAddress arch order a).operand arch order (register first (i / 4)) =
      σ.operand arch order (register first (i / 4)) :=
    GuestState.operand_withSpecial (register_lt _ _) _
  rw [stringByte, hoperand]
  rfl

/-- What was stored from a row of registers is loaded to the row again. -/
theorem stringByte_reloaded {arch : Arch} {host order : ByteOrder} {first n : Nat}
    {ea : BitVec arch.word.ty.bits} {memory memory₁ memory₂ : M} {σ σ₁ σ₂ σ₃ : GuestState}
    (hstored : StringMoved arch host order view false first ea memory σ n memory₁ σ₁)
    (hloaded : StringMoved arch host order view true first ea memory₁ σ₂ n memory₂ σ₃) {i : Nat}
    (hi : i < 4 * ((n + 3) / 4)) :
    stringByte arch order σ₃ first i = if i < n then stringByte arch order σ first i else 0 := by
  rw [stringByte_of_operand (hloaded.2.words (i / 4) (by omega))]
  by_cases hlt : i < n
  · rw [if_pos hlt, if_pos hlt, ← hstored.1.words i hlt, ByteMemory.read_byte]
  · rw [if_neg hlt, if_neg hlt]

end Multiple

/-- String and multiple-register instructions move exactly the bytes that they name, from or to the
registers as they were before, and a string that was stored is loaded as it was. -/
theorem Guest.strings_move (g : Guest) (hI : I.Scalar) (hview : I.Bytewise view) :
    (∀ {isLoad indexed : Bool}, w.StringForm isLoad indexed →
      g.Performs w I (Multiple.StringClashes isLoad indexed w) fun cia next m out =>
        next = (if indexed then .stop .boring else .continue) ∧
          Multiple.GoesOn (g.env cia cia) I indexed
            (Multiple.StringMoved g.arch g.host I.order view isLoad w.rd
              ((Multiple.offset indexed).address g.arch I.order w false m.state) m.memory m.state
              (Multiple.count g.arch indexed w m.state)) out) ∧
    (∀ {isLoad : Bool}, w.WordsForm isLoad →
      g.Performs w I (isLoad = true ∧ w.rd ≤ w.ra) fun cia next m out => next = .continue ∧
        Multiple.GoesOn (g.env cia cia) I false
          (Multiple.WordsMoved g.arch g.host I.order view isLoad w.rd
            ((LoadStore.Offset.disp w.simm64).address g.arch I.order w false m.state) m.memory
            m.state (32 - w.rd)) out) ∧
    (∀ {indexed indexed' : Bool} {cia cia' : BitVec 64} {first n : Nat}
      {ea : BitVec g.arch.word.ty.bits} {memory : M} {σ : GuestState} {out out' : Left M},
      Multiple.GoesOn (g.env cia cia) I indexed
        (Multiple.StringMoved g.arch g.host I.order view false first ea memory σ n) out →
      Multiple.GoesOn (g.env cia' cia') I indexed'
        (Multiple.StringMoved g.arch g.host I.order view true first ea out.memory out.state n)
          out' →
      out'.memory = out.memory ∧ ∀ i < 4 * ((n + 3) / 4),
        Multiple.stringByte g.arch I.order out'.state first i =
          if i < n then Multiple.stringByte g.arch I.order σ first i else 0) := by
  refine ⟨fun {isLoad indexed} hform => ?_, fun {isLoad} hform => ?_, ?_⟩
  · obtain ⟨hroute, hopcode⟩ := hform.route
    refine Guest.performs hroute (by omega) (Multiple.StringClashes isLoad indexed w)
      (or_iff_right (Route.not_closed g)) fun env c hlayout henv hnext => ?_
    obtain ⟨cia, blockStart, rfl⟩ := henv
    exact Multiple.liftString_comes hI hview hlayout hnext hform
  · obtain ⟨hroute, hopcode⟩ := hform.route
    refine Guest.performs hroute (by omega) (isLoad = true ∧ w.rd ≤ w.ra)
      (or_iff_right (Route.not_closed g)) fun env c hlayout henv hnext => ?_
    obtain ⟨cia, blockStart, rfl⟩ := henv
    exact Multiple.liftWords_comes hI hview hlayout hnext hform
  · rintro indexed indexed' cia cia' first n ea memory σ out out' ⟨memory₁, σ₁, hstored, rfl⟩
      ⟨memory₂, σ₂, hloaded, rfl⟩
    refine ⟨hloaded.1, fun i hi => ?_⟩
    rw [← Multiple.stringByte_reloaded hstored hloaded hi]
    cases indexed' with
    | true => exact Multiple.stringByte_withAddress ..
    | false => rfl

/-- A machine whose general register 4 is 0x1000, with the bytes 1, 2, 3 and so on from there. -/
def Multiple.spelled : Machine Interp.Reserved :=
  .start ⟨fun a => (a - 0xFFF).setWidth 8, false⟩ fun o => if o = 38 then 0x10 else 0

/-- A machine whose general register 4 is 0x1000. Each byte of the other registers is the number of
its place. -/
def Multiple.lettered : Machine Interp.Reserved :=
  .start ⟨fun _ => 0, false⟩ fun o =>
    if 32 ≤ o ∧ o < 40 then (if o = 38 then 0x10 else 0) else .ofNat 8 o

/-- The code of `lswi r31,r4,6` goes on in register 0 behind register 31, that of `lmw r31,2(r4)`
loads a single word, and what `stswi r31,r4,6` stores after that `lswi r31,r4,6` loads again. -/
theorem Guest.strings_move_words :
    let g : Guest := { arch := .ppc64, host := .big }
    (∃ ss out, (g.lift ⟨#[0x7F, 0xE4, 0x34, 0xAA]⟩ 0 0x2000 0x2000 (.empty 0)).block.stmts.toList =
        ss ∧
      (g.env 0x2000 0x2000).leave (.scalar .big) .continue
        (runAll (.scalar .big) #[] ss Multiple.spelled) = out ∧
      out.pc = 0x2004 ∧ out.state.operand .ppc64 .big 31 = 0x01020304 ∧
      out.state.operand .ppc64 .big 0 = 0x05060000) ∧
    (∃ ss out, (g.lift ⟨#[0xBB, 0xE4, 0x00, 0x02]⟩ 0 0x2000 0x2000 (.empty 0)).block.stmts.toList =
        ss ∧
      (g.env 0x2000 0x2000).leave (.scalar .big) .continue
        (runAll (.scalar .big) #[] ss Multiple.spelled) = out ∧
      out.pc = 0x2004 ∧ out.state.operand .ppc64 .big 31 = 0x03040506) ∧
    ∃ ss out ss' out',
      (g.lift ⟨#[0x7F, 0xE4, 0x35, 0xAA]⟩ 0 0x2000 0x2000 (.empty 0)).block.stmts.toList = ss ∧
      (g.env 0x2000 0x2000).leave (.scalar .big) .continue
        (runAll (.scalar .big) #[] ss Multiple.lettered) = out ∧
      (g.lift ⟨#[0x7F, 0xE4, 0x34, 0xAA]⟩ 0 0x2004 0x2004 (.empty 0)).block.stmts.toList = ss' ∧
      (g.env 0x2004 0x2004).leave (.scalar .big) .continue
        (runAll (.scalar .big) #[] ss' (.start out.memory out.state)) = out' ∧
      out'.memory = out.memory ∧
      (List.range 8).map (Multiple.stringByte .ppc64 .big out'.state 31) =
        [0xFC, 0xFD, 0xFE, 0xFF, 0x04, 0x05, 0, 0] := by
  intro g
  have htheorem (w : Insn) := g.strings_move (w := w) (Interp.scalar_scalar .big)
    (Interp.scalar_bytewise .big)
  refine ⟨?_, ?_, ?_⟩
  · obtain ⟨next, ss, -, hstmts, rfl, memory, σ, ⟨-, hwords⟩, hout⟩ :=
      ((htheorem ⟨0x7FE434AA⟩).1 (.lswi (by decide) (by decide))).exists_run (by decide)
        ⟨#[0x7F, 0xE4, 0x34, 0xAA]⟩ (by decide) (by decide) 0x2000 Multiple.spelled
    refine ⟨ss, _, hstmts, hout, rfl, (hwords.words 0 (by decide)).trans ?_,
      (hwords.words 1 (by decide)).trans ?_⟩
    · decide +kernel
    · decide +kernel
  · obtain ⟨next, ss, -, hstmts, rfl, memory, σ, ⟨-, hwords⟩, hout⟩ :=
      ((htheorem ⟨0xBBE40002⟩).2.1 (.lmw (by decide))).exists_run (by decide)
        ⟨#[0xBB, 0xE4, 0x00, 0x02]⟩ (by decide) (by decide) 0x2000 Multiple.spelled
    refine ⟨ss, _, hstmts, hout, rfl, (hwords.words 0 (by decide)).trans ?_⟩
    decide +kernel
  · have hcount : Multiple.count .ppc64 false ⟨0x7FE435AA⟩ Multiple.lettered.state = 6 := by decide
    obtain ⟨next, ss, -, hstmts, rfl, hstored⟩ :=
      ((htheorem ⟨0x7FE435AA⟩).1 (.stswi (by decide) (by decide))).exists_run (by decide)
        ⟨#[0x7F, 0xE4, 0x35, 0xAA]⟩ (by decide) (by decide) 0x2000 Multiple.lettered
    obtain ⟨memory, σ, ⟨-, rfl⟩, hout⟩ := id hstored
    rw [hout, hcount] at hstored
    obtain ⟨next', ss', -, hstmts', rfl, hloaded⟩ :=
      ((htheorem ⟨0x7FE434AA⟩).1 (.lswi (by decide) (by decide))).exists_run (by decide)
        ⟨#[0x7F, 0xE4, 0x34, 0xAA]⟩ (by decide) (by decide) 0x2004
        (.start memory Multiple.lettered.state)
    obtain ⟨hmemory, hreload⟩ := (htheorem ⟨0x7FE434AA⟩).2.2 hstored hloaded
    refine ⟨ss, _, ss', _, hstmts, hout, hstmts', rfl, hmemory, ?_⟩
    refine (List.map_congr_left fun i hi => hreload i (List.mem_range.mp hi)).trans ?_
    decide +kernel

end PowerLift
