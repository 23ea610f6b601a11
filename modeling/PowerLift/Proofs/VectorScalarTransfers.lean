import PowerLift.Proofs.FloatTransfers
import PowerLift.Proofs.VectorScalarMoves

/-!
# The code of vector-scalar loads and stores

Pieces that are loaded are put together to one vector, and a vector that is stored is taken apart.
-/

namespace PowerLift

open FloatingPoint (Move Datum Item)
open LoadStore (Offset)
open Lift (exec)
open Point (Knows Has Step Since)
open PowerLift.Expr (un bin)
open RegisterFile (high)
open VectorScalar (halves highHalf highDouble bitsOfDouble)

variable {M : Type} {I : Interp M} {env : Env} {c : Point M} {w : Insn}

/-- A vector that is put together from its two halves. -/
theorem append_two (f : Nat → BitVec 64) : (f 0 ++ f 1 : BitVec 128) = ofElements 64 f := by
  refine (append_halves (f 0) (f 1)).trans (ofElements_congr (by decide) fun i hi => ?_)
  obtain rfl | rfl : i = 0 ∨ i = 1 := by omega
  · rfl
  · rfl

/-- A vector that is put together from its four words. -/
theorem append_four (f : Nat → BitVec 32) :
    (f 0 ++ f 1 ++ (f 2 ++ f 3) : BitVec 128) = ofElements 32 f := by
  refine (append_words (f 0) (f 1) (f 2) (f 3)).trans (ofElements_congr (by decide) fun i hi => ?_)
  obtain rfl | rfl | rfl | rfl : i = 0 ∨ i = 1 ∨ i = 2 ∨ i = 3 := by omega
  all_goals rfl

namespace VectorScalarMemory

/-- The access to the elements of a vector. -/
def elementwise (v : Word) (store : Bool) : Move := { item := .elements v, store }

/-- The load or store with an extended opcode. -/
def move? : Nat → Option Move
  | 12 => some { item := .scalar (.word false) false }
  | 76 => some { item := .scalar (.word true) false }
  | 332 => some { item := .scalar .double true }
  | 524 => some { item := .scalar .single false }
  | 588 => some { item := .scalar .double false }
  | 780 => some (elementwise .w32 false)
  | 844 => some (elementwise .w64 false)
  | 140 => some { item := .scalar (.word false) false, store := true }
  | 652 => some { item := .scalar .single false, store := true }
  | 716 => some { item := .scalar .double false, store := true }
  | 908 => some (elementwise .w32 true)
  | 972 => some (elementwise .w64 true)
  | _ => none

variable {view : M → WordMemory env.arch.word.ty.bits} {a : BitVec env.arch.word.ty.bits}
  {x : Move}

/-! ## Loads -/

/-- A load is done when its vector is written. -/
theorem putLoaded_comes (hlayout : env.layout = env.arch) (hload : x.store = false)
    (hupdate : x.update = false) {value : Expr} {y : BitVec 128}
    (hgiven : x.item.given I env.arch env.host w c.state (x.fetched env a (view c.memory)) =
      c.state.withVsr env.arch I.order w.xt y)
    {e : Expr} (he : ∀ {S}, c.Knows I S e ⟨env.arch.word.ty, a⟩)
    (hvalue : c.Has I value ⟨.v128, y⟩) (hnext : c.progress.next = .continue) :
    Comes env I c (Lift.putVsr w.xt value) False fun next flow => next = .continue ∧
      x.Done env I view w a c.memory c.state (env.leave I next flow) := by
  refine .last (.putVsr hlayout w.xt_lt hvalue fun c' _ hstate hmemory => ?_)
  have hend : Comes env I c' (if x.update then Lift.putGpr w.ra e else pure ()) False _ :=
    Move.loaded_comes (x := x) (w := w) hlayout hload he.since.always
      (Since.next_eq hnext) hmemory (hstate.trans hgiven.symm)
  rwa [hupdate] at hend

section

variable (hI : I.Floating) (hview : I.Wordwise env.arch view) (hlayout : env.layout = env.arch)
  (hnext : c.progress.next = .continue) {e : Expr}
  (he : ∀ {S}, c.Knows I S e ⟨env.arch.word.ty, a⟩)

include hI hlayout hnext he

/-- A scalar is widened into the high half. -/
theorem loadScalar_comes {d : Datum} {bits : Expr}
    (hbits : c.Has I bits ⟨.i64, d.widened I ((view c.memory).read env.host a d.ty)⟩) :
    Comes env I c (Lift.putVsr w.xt (highHalf bits)) False fun next flow => next = .continue ∧
      Move.Done { item := .scalar d false } env I view w a c.memory c.state
        (env.leave I next flow) := by
  have hvalue := hbits.bin (Knows.const (.u64 0)).always rfl (hI.cat64toV _ _)
  refine putLoaded_comes (x := { item := .scalar d false }) hlayout rfl rfl ?_ he hvalue hnext
  simp only [Item.given, Move.fetched_zero]
  rfl

include hview

/-- One double word goes to both halves. -/
theorem loadCopied_comes :
    Comes env I c (do
      let d ← Lift.bind (← Lift.load .i64 e)
      Lift.putVsr w.xt (halves d d)) False fun next flow => next = .continue ∧
        Move.Done { item := .scalar .double true } env I view w a c.memory c.state
          (env.leave I next flow) := by
  have hloaded : c.Has I (.load env.host .i64 e) _ :=
    he.always.loadWord hview env.host Ty.noConfusion
  refine .give rfl (.bind hloaded fun d c₁ _ hstate hmemory hd => ?_)
  rw [← hmemory] at hd ⊢
  rw [← hstate]
  refine putLoaded_comes (x := { item := .scalar .double true }) hlayout rfl rfl ?_ he.since
    (hd.always.bin hd.always rfl (hI.cat64toV _ _)) (Since.next_eq hnext)
  simp only [Item.given, Move.fetched_zero]
  rfl

theorem loadDoubles_comes :
    Comes env I c (do
      let hi ← Lift.load .i64 e
      let lo ← Lift.load .i64 (← Lift.addrPlus e 8)
      Lift.putVsr w.xt (halves hi lo)) False fun next flow => next = .continue ∧
        Move.Done (elementwise .w64 false) env I view w a c.memory c.state
          (env.leave I next flow) := by
  obtain ⟨second, hexec, hsecond⟩ := Multiple.addrPlus_knows hI.toModular he 8
  let half := (elementwise .w64 false).fetched env a (view c.memory)
  have hfirst : c.Has I (.load env.host .i64 e) ⟨.i64, half 0⟩ :=
    Move.fetched_has (x := elementwise .w64 false) hview he.first.always (Nat.zero_mul _).symm
  have hother : c.Has I (.load env.host .i64 second) ⟨.i64, half 1⟩ :=
    Move.fetched_has (x := elementwise .w64 false) hview hsecond.always rfl
  refine .give rfl (.give hexec (.give rfl ?_))
  refine putLoaded_comes (x := elementwise .w64 false) hlayout rfl rfl rfl he ?_ hnext
  exact (hfirst.bin hother rfl (hI.cat64toV _ _)).congr
    (congrArg (Value.mk .v128) (append_two half))

theorem loadWords_comes :
    Comes env I c (do
      let p ← Lift.load .i32 (← Lift.addrPlus e 0)
      let q ← Lift.load .i32 (← Lift.addrPlus e 4)
      let r ← Lift.load .i32 (← Lift.addrPlus e 8)
      let s ← Lift.load .i32 (← Lift.addrPlus e 12)
      Lift.putVsr w.xt (.ofWords p q r s)) False fun next flow => next = .continue ∧
        (elementwise .w32 false).Done env I view w a c.memory c.state
          (env.leave I next flow) := by
  let word := (elementwise .w32 false).fetched env a (view c.memory)
  have hword (i : Nat) : ∃ addr,
      exec env c.progress (Lift.addrPlus e (.ofNat 64 (i * 4))) = (.ok addr, c.progress) ∧
      c.Has I (.load env.host .i32 addr) ⟨.i32, word i⟩ := by
    obtain ⟨addr, hexec, haddr⟩ := Multiple.addrPlus_knows hI.toModular he (i * 4)
    have hplace : i * 4 = i * (elementwise .w32 false).item.ty.bytes := congrArg (i * ·) rfl
    exact ⟨addr, hexec, Move.fetched_has (x := elementwise .w32 false) hview haddr.always hplace⟩
  obtain ⟨p, hexec₀, hp⟩ := hword 0
  obtain ⟨q, hexec₁, hq⟩ := hword 1
  obtain ⟨r, hexec₂, hr⟩ := hword 2
  obtain ⟨s, hexec₃, hs⟩ := hword 3
  refine .give hexec₀ (.give rfl (.give hexec₁ (.give rfl ?_)))
  refine .give hexec₂ (.give rfl (.give hexec₃ (.give rfl ?_)))
  refine putLoaded_comes (x := elementwise .w32 false) hlayout rfl rfl rfl he ?_ hnext
  exact ((hp.bin hq rfl (hI.cat32to64 _ _)).bin (hr.bin hs rfl (hI.cat32to64 _ _)) rfl
    (hI.cat64toV _ _)).congr (congrArg (Value.mk .v128) (append_four word))

end

/-! ## Stores -/

/-- Words that are stored one behind the other. -/
theorem storeList_comes (hI : I.Modular) (hview : I.Wordwise env.arch view) {e : Expr}
    (he : ∀ {S}, c.Knows I S e ⟨env.arch.word.ty, a⟩) {g : Nat → BitVec 32} {es : List Expr}
    {k : Nat} {bytes : WordMemory env.arch.word.ty.bits}
    (hes : ∀ i (hi : i < es.length), ∀ {S}, c.Knows I S es[i] ⟨.i32, g (k + i)⟩)
    (hbytes : view c.memory = bytes.writeAll env.host a .i32 g k) {φ : Prop}
    {Q : Continuation → Flow M → Prop} {f : Unit → Lift Unit}
    (hf : ∀ c' [Since c c'], c'.state = c.state →
      view c'.memory = bytes.writeAll env.host a .i32 g (k + es.length) →
      Comes env I c' (f ()) φ Q) :
    Comes env I c ((es.zipIdx k).forM (fun (word, i) => do
      Lift.store (← Lift.addrPlus e (.ofNat 64 (4 * i))) word) >>= f) φ Q := by
  induction es generalizing c k with
  | nil => exact hf c rfl hbytes
  | cons word es ih =>
      have hfirst : ∀ {S}, c.Knows I S word ⟨.i32, g k⟩ := hes 0 (by simp)
      obtain ⟨addr, hexec, haddr⟩ := Multiple.addrPlus_knows hI he (4 * k)
      simp only [List.zipIdx_cons, List.forM_eq_forM, List.forM_cons, bind_assoc]
      refine .give hexec (.storePiece hview Ty.noConfusion hbytes haddr.always
        (Nat.mul_comm 4 k) hfirst.always fun c₁ _ hstate₁ hbytes₁ => ?_)
      refine ih he.since (fun i hi {S} => ?_) hbytes₁
        fun c₂ _ hstate₂ hbytes₂ => ?_
      · have hlater : ∀ {S}, c.Knows I S es[i] ⟨.i32, g (k + (i + 1))⟩ :=
          hes (i + 1) (Nat.succ_lt_succ hi)
        rw [Nat.add_assoc, Nat.add_comm 1 i]
        exact hlater.since
      · have : Since c c₂ := Since.trans c₁
        refine hf c₂ (hstate₂.trans hstate₁) (hbytes₂.trans ?_)
        rw [List.length_cons, Nat.add_assoc, Nat.add_comm 1]

section

variable (hI : I.Floating) (hview : I.Wordwise env.arch view) (hlayout : env.layout = env.arch)
  (hnext : c.progress.next = .continue) {e : Expr}
  (he : ∀ {S}, c.Knows I S e ⟨env.arch.word.ty, a⟩)

include hview hlayout hnext he

/-- A store of the high half is done when the bytes of the narrowed number are written. -/
theorem storeScalar_comes {d : Datum} {value : Expr} {v : Value} (hv : v.ty ≠ .i1)
    (hvalue : c.Has I value v)
    (hheld : ∀ bytes : WordMemory env.arch.word.ty.bits, bytes.write env.host a v =
      bytes.write env.host a ⟨d.ty, d.narrowed I (c.state.roundingMode env.arch)
        (high (c.state.vsr env.arch I.order w.xt))⟩) :
    Comes env I c (Lift.store e value) False fun next flow => next = .continue ∧
      Move.Done { item := .scalar d false, store := true } env I view w a c.memory c.state
        (env.leave I next flow) := by
  refine .last (.store he.always hvalue hv fun c' _ hstate hmemory => ?_)
  refine Move.stored_comes (x := { item := .scalar d false, store := true }) hlayout rfl
    he.since.always (Since.next_eq hnext) ?_ hstate
  rw [hmemory, hview.store _ _ _ _ hv, hheld]
  exact (WordMemory.writeAll_one
    (f := (Item.scalar d false).held I env.arch env.host w c.state)).symm

include hI

theorem storeDoubles_comes {v : Expr}
    (hv : ∀ {S}, c.Knows I S v ⟨.v128, c.state.vsr env.arch I.order w.xt⟩) :
    Comes env I c (do
      Lift.store e (un (.cast .highVto64) v)
      Lift.store (← Lift.addrPlus e 8) (un (.cast .lowVto64) v)) False
      fun next flow => next = .continue ∧
        (elementwise .w64 true).Done env I view w a c.memory c.state (env.leave I next flow) := by
  let held : Nat → BitVec Ty.i64.bits :=
    (elementwise .w64 true).item.held I env.arch env.host w c.state
  refine .storePiece hview (k := 0) (g := held) Ty.noConfusion rfl he.first.always
    (Nat.zero_mul _).symm ((hv.half hI.toVectors (i := 0) (by decide)).always)
      fun c₁ _ hstate₁ hbytes₁ => ?_
  have he₁ {S : GuestState → Prop} : c₁.Knows I S e ⟨env.arch.word.ty, a⟩ := he.since
  obtain ⟨second, hexec, hsecond⟩ := Multiple.addrPlus_knows hI.toModular he₁ 8
  refine .give hexec (.last (.storePiece hview (k := 1) (g := held) Ty.noConfusion hbytes₁
    hsecond.always rfl (hv.since.half hI.toVectors (i := 1) (by decide)).always
      fun c₂ _ hstate₂ hbytes₂ => ?_))
  exact Move.stored_comes (x := elementwise .w64 true) hlayout rfl he.since.always
    (Since.next_eq hnext) hbytes₂ (hstate₂.trans hstate₁)

theorem storeWords_comes {v : Expr}
    (hv : ∀ {S}, c.Knows I S v ⟨.v128, c.state.vsr env.arch I.order w.xt⟩) :
    Comes env I c (do
      (← Lift.splitWords v).zipIdx.forM fun (word, i) => do
        Lift.store (← Lift.addrPlus e (.ofNat 64 (4 * i))) word) False
      fun next flow => next = .continue ∧
        (elementwise .w32 true).Done env I view w a c.memory c.state (env.leave I next flow) := by
  let held := (elementwise .w32 true).item.held I env.arch env.host w c.state
  refine .splitWords hI.toVectors hv.always fun p q r t c₁ _ hstate₁ hmemory₁ hp hq hr ht => ?_
  have hes : ∀ i (hi : i < [p, q, r, t].length), ∀ {S},
      c₁.Knows I S [p, q, r, t][i] ⟨.i32, held (0 + i)⟩
    | 0, _ => hp
    | 1, _ => hq
    | 2, _ => hr
    | 3, _ => ht
  have hbytes₁ : view c₁.memory = (view c.memory).writeAll env.host a .i32 held 0 :=
    congrArg view hmemory₁
  refine .last (storeList_comes hI.toModular hview he.since hes hbytes₁
    fun c₂ _ hstate₂ hbytes₂ => ?_)
  have : Since c c₂ := Since.trans c₁
  exact Move.stored_comes (x := elementwise .w32 true) hlayout rfl he.since.always
    (Since.next_eq hnext) hbytes₂ (hstate₂.trans hstate₁)

end

/-! ## Whole instructions -/

section

variable (hI : I.Floating) (hview : I.Wordwise env.arch view) (hlayout : env.layout = env.arch)
  (hnext : c.progress.next = .continue)

include hI hview hlayout hnext

theorem load_comes (hmove : move? w.xo10 = some x) (hload : x.store = false) :
    Comes env I c (load w) False fun next flow => next = .continue ∧
      x.Done env I view w (Offset.index.address env.arch I.order w false c.state) c.memory c.state
        (env.leave I next flow) := by
  unfold load
  obtain ⟨e, hexec, he⟩ := LoadStore.ea_knows (c := c) hI.toModular hlayout w false .index
  refine .give hexec (.bind (he.has rfl) fun e c₁ _ hstate₁ hmemory₁ he => ?_)
  have hnext₁ : c₁.progress.next = .continue := Since.next_eq hnext
  generalize Offset.index.address env.arch I.order w false c.state = a at he ⊢
  rw [← hstate₁, ← hmemory₁]
  unfold move? at hmove
  split at hmove
  all_goals cases hmove
  all_goals cases hload
  all_goals
    rename_i hxo
    simp only [hxo, bind_assoc, pure_bind]
    refine .noted fun c₂ _ hstate₂ hmemory₂ => ?_
    rw [← hstate₂, ← hmemory₂]
    have he₂ {S : GuestState → Prop} : c₂.Knows I S e ⟨env.arch.word.ty, a⟩ := he.since
    have hnext₂ : c₂.progress.next = .continue := Since.next_eq hnext₁
    have hloaded {ty : Ty} (hty : ty ≠ .i1) : c₂.Has I (.load env.host ty e)
      ⟨ty, (view c₂.memory).read env.host a ty⟩ := he₂.always.loadWord hview env.host hty
  · exact .give rfl (loadScalar_comes (d := .word false) hI hlayout hnext₂ he₂
      ((hloaded Ty.noConfusion).un rfl (hI.cast .zext32to64 rfl .i32 rfl _)))
  · exact .give rfl (loadScalar_comes (d := .word true) hI hlayout hnext₂ he₂
      ((hloaded Ty.noConfusion).un rfl (hI.sext32to64 _)))
  · exact loadCopied_comes hI hview hlayout hnext₂ he₂
  · exact .give rfl (loadScalar_comes (d := .single) hI hlayout hnext₂ he₂
      (((hloaded Ty.noConfusion).un rfl rfl).un rfl (hI.bits64 _)))
  · have hdouble : c₂.Has I (.load env.host .i64 e)
        ⟨.i64, (view c₂.memory).read env.host a .i64⟩ := hloaded Ty.noConfusion
    exact .give rfl (loadScalar_comes (d := .double) hI hlayout hnext₂ he₂ hdouble)
  · exact loadWords_comes hI hview hlayout hnext₂ he₂
  · exact loadDoubles_comes hI hview hlayout hnext₂ he₂

theorem store_comes (hmove : move? w.xo10 = some x) (hstore : x.store = true) :
    Comes env I c (store w) False fun next flow => next = .continue ∧
      x.Done env I view w (Offset.index.address env.arch I.order w false c.state) c.memory c.state
        (env.leave I next flow) := by
  unfold store
  obtain ⟨e, hexec, he⟩ := LoadStore.ea_knows (c := c) hI.toModular hlayout w false .index
  refine .give hexec (.bind (he.has rfl) fun e c₁ _ hstate₁ hmemory₁ he => ?_)
  refine .give (exec_getVsr hlayout w.xt_lt) (.bind ((Point.knows_vsr_of env rfl w.xt).has rfl)
    fun v c₂ _ hstate₂ hmemory₂ hv => ?_)
  have hnext₂ : c₂.progress.next = .continue := Since.next_eq hnext
  generalize Offset.index.address env.arch I.order w false c.state = a at he ⊢
  rw [← hstate₁, ← hmemory₁, ← hstate₂, ← hmemory₂]
  rw [← hstate₂] at hv
  unfold move? at hmove
  split at hmove
  all_goals cases hmove
  all_goals cases hstore
  all_goals
    rename_i hxo
    simp only [hxo]
    refine .noted fun c₃ _ hstate₃ hmemory₃ => ?_
    rw [← hstate₃, ← hmemory₃]
    have : Since c₁ c₃ := Since.trans c₂
    have he₃ {S : GuestState → Prop} : c₃.Knows I S e ⟨env.arch.word.ty, a⟩ := he.since
    have hv₃ {S : GuestState → Prop} :
        c₃.Knows I S v ⟨.v128, c₃.state.vsr env.arch I.order w.xt⟩ := hstate₃ ▸ hv.since
    have hnext₃ : c₃.progress.next = .continue := Since.next_eq hnext₂
  · exact storeScalar_comes (d := .word false) hview hlayout hnext₃ he₃ Ty.noConfusion
      (((hv₃.highHalf hI.toVectors).un rfl (hI.cast .low64to32 rfl .i64 rfl _)).always) fun _ => rfl
  · obtain ⟨mode, hexec, hmode⟩ := Point.rounding_knows hI.toBitwise hlayout c₃
    have hdouble := ((hv₃.highHalf hI.toVectors).un rfl (hI.ofBits64 _)).always
    exact .give hexec (storeScalar_comes (d := .single) hview hlayout hnext₃ he₃ Ty.noConfusion
      ((hmode.has rfl).bin hdouble rfl rfl) fun _ => rfl)
  · exact storeScalar_comes (d := .double) hview hlayout hnext₃ he₃ Ty.noConfusion
      (hv₃.highHalf hI.toVectors).always fun _ => rfl
  · exact storeWords_comes hI hview hlayout hnext₃ he₃ hv₃
  · exact storeDoubles_comes hI hview hlayout hnext₃ he₃ hv₃

/-- Accesses of scalars that are not double words came with version 2.07 of the architecture. -/
theorem lift_comes (hmove : move? w.xo10 = some x) :
    Comes env I c (lift w) (w.xo10 ∈ since207 ∧ env.features.isa207 = false) fun next flow =>
      next = .continue ∧ x.Done env I view w
        (Offset.index.address env.arch I.order w false c.state) c.memory c.state
          (env.leave I next flow) := by
  have hdone : Comes env I c (if x.store then store w else load w) False fun next flow =>
      next = .continue ∧ x.Done env I view w
        (Offset.index.address env.arch I.order w false c.state) c.memory c.state
          (env.leave I next flow) := by
    cases hstore : x.store with
    | false => exact load_comes hI hview hlayout hnext hmove hstore
    | true => exact store_comes hI hview hlayout hnext hmove hstore
  unfold lift
  refine Comes.congr (φ := (_ ∧ True) ∨ False) (.give rfl
    (.guardWhen (fun _ => Lift.missing_refuses w .isa207) fun _ => ?_)) (by simp)
  unfold move? at hmove
  split at hmove
  all_goals cases hmove
  all_goals
    rename_i hxo
    simp only [hxo]
    exact hdone

end

end VectorScalarMemory

end PowerLift
