import PowerLift.Proofs.Filling
import PowerLift.Proofs.FloatForms
import PowerLift.Proofs.VectorMoves

/-!
# Registers that come back from memory

A vector-scalar register is one vector, two doublewords or four words, and its high half may be a
floating-point register. Each kind of access takes one of these views, both of the register and of
the bytes in memory. What one access stores another loads, wherever their views agree.
-/

namespace PowerLift

open FloatingPoint (Move Item Datum pairMove)
open LoadStore (Offset)
open RegisterFile (high withHigh)
open VectorScalarMemory (elementwise)

variable {M : Type} {I : Interp M}

/-! ## What an access leaves -/

namespace FloatingPoint

variable {env : Env} {w : Insn} {x : Move} {view : M → WordMemory env.arch.word.ty.bits}
  {a : BitVec env.arch.word.ty.bits} {memory : M} {σ : GuestState} {out : Left M}

namespace Move.Done

variable (h : x.Done env I view w a memory σ out)

include h

/-- Each piece is in memory where it was stored. -/
theorem stored (hstore : x.store = true) {i : Nat} (hi : i < x.item.count) :
    (view out.memory).read env.host (a + .ofNat _ (i * x.item.ty.bytes)) x.item.ty =
      x.item.held I env.arch env.host w σ i := by
  rw [h.bytes, bytesAfter, if_pos hstore]
  exact WordMemory.read_writeAll x.item.ty_ne_i1 (x.item.length_fits env.arch) hi

/-- The first piece is at the address itself. -/
theorem stored_first (hstore : x.store = true) :
    (view out.memory).read env.host a x.item.ty = x.item.held I env.arch env.host w σ 0 := by
  have hfirst := h.stored hstore x.item.count_pos
  rwa [Nat.zero_mul, BitVec.add_zero] at hfirst

/-- Nothing else in memory is written. -/
theorem others (hstore : x.store = true) {b : BitVec env.arch.word.ty.bits}
    (hb : ¬(b - a).toNat < x.item.count * x.item.ty.bytes) :
    view out.memory b = view memory b := by
  rw [h.bytes, bytesAfter, if_pos hstore]
  exact WordMemory.writeAll_outside (x.item.length_fits env.arch) hb

theorem operand (hupdate : x.update = true) :
    out.state.operand env.arch I.order w.ra = a := by
  rw [h.state, stateAfter, if_pos hupdate]
  exact GuestState.operand_withOperand _ _

/-- An update of the base register does not reach the bytes of the others. -/
theorem apply {o : Nat} (ho : x.update = true → ¬GuestState.InOperand env.arch w.ra o) :
    out.state o = x.registersAfter env I w a (view memory) σ o := by
  rw [h.state, stateAfter]
  by_cases hupdate : x.update = true
  · rw [if_pos hupdate]
    exact GuestState.withOperand_apply _ (ho hupdate)
  · rw [if_neg hupdate]

theorem vsr (k : Nat) : out.state.vsr env.arch I.order k =
    (x.registersAfter env I w a (view memory) σ).vsr env.arch I.order k := by
  rw [h.state, stateAfter]
  by_cases hupdate : x.update = true
  · rw [if_pos hupdate]
    exact GuestState.vsr_withOperand w.ra_lt a
  · rw [if_neg hupdate]

theorem fpr (k : Nat) : out.state.fpr env.arch env.host I.order k =
    (x.registersAfter env I w a (view memory) σ).fpr env.arch env.host I.order k := by
  rw [h.state, stateAfter]
  by_cases hupdate : x.update = true
  · rw [if_pos hupdate]
    exact GuestState.fpr_withOperand w.ra_lt a
  · rw [if_neg hupdate]

end Move.Done

end FloatingPoint

/-! ## Accesses by words -/

/-- The word `w` is accepted as the access `x`, and from `m`, where its address is `a`, it is left
with `out`. -/
structure Guest.Moves (g : Guest) (I : Interp M) (w : Insn) (x : Move)
    (a : BitVec g.arch.word.ty.bits) (m : Machine M) (out : Left M) : Prop where
  form : ∃ o, w.FloatForm x o ∧ o.address g.arch I.order w x.update m.state = a
  leaves : g.Leaves I w m out

namespace Guest.Moves

variable {g : Guest} {w w' : Insn} {x : Move} {a : BitVec g.arch.word.ty.bits} {m m' : Machine M}
  {out out' : Left M} {view : M → WordMemory g.arch.word.ty.bits}

section

variable (h : g.Moves I w x a m out) (hI : I.Floating) (hview : I.Wordwise g.arch view)

include h hI hview

theorem done : ¬x.Clashes w ∧
    ∃ cia, x.Done (g.env cia cia) I view w a m.memory m.state out := by
  obtain ⟨⟨o, hform, rfl⟩, hleaves⟩ := h
  obtain ⟨haccepted, cia, next, -, hdone⟩ := (g.float_performs hI hview hform).leaves hleaves
  exact ⟨fun hclashes => haccepted (.inr (.inr hclashes)), cia, hdone⟩

/-- The bytes of guest state that stay. -/
theorem kept {o : Nat} (ho : x.store = true ∨ ¬x.item.Covers g.arch g.host w o)
    (hbase : x.update = true → ¬GuestState.InOperand g.arch w.ra o) :
    out.state o = m.state o := by
  obtain ⟨-, cia, hdone⟩ := h.done hI hview
  refine (hdone.apply hbase).trans ?_
  unfold Move.registersAfter
  by_cases hstore : x.store = true
  · rw [if_pos hstore]
  · rw [if_neg hstore]
    exact Item.given_apply (ho.resolve_left hstore) _

/-- The bytes of memory that stay. -/
theorem memory_kept {b : BitVec g.arch.word.ty.bits}
    (hb : x.store = false ∨ ¬(b - a).toNat < x.item.count * x.item.ty.bytes) :
    view out.memory b = view m.memory b := by
  obtain ⟨-, cia, hdone⟩ := h.done hI hview
  cases hstore : x.store with
  | false => rw [hdone.loads hstore]
  | true => exact hdone.others hstore (hb.resolve_left (by simp [hstore]))

theorem updates (hupdate : x.update = true) :
    w.ra ≠ 0 ∧ out.state.operand g.arch I.order w.ra = a := by
  obtain ⟨hclashes, cia, hdone⟩ := h.done hI hview
  exact ⟨fun hzero => hclashes (.inl ⟨hupdate, hzero⟩), hdone.operand hupdate⟩

end

/-! ### Vector-scalar registers -/

section

variable (hI : I.Floating) (hview : I.Wordwise g.arch view)

include hI hview

theorem elements_loaded {v : Word} (h : g.Moves I w (elementwise v false) a m out) {i : Nat}
    (hi : i < 128 / v.ty.bits) :
    elementAt v.ty.bits (out.state.vsr g.arch I.order w.xt) i =
      (view m.memory).read g.host (a + .ofNat _ (i * v.ty.bytes)) v.ty := by
  obtain ⟨-, cia, hdone⟩ := h.done hI hview
  have hvsr : out.state.vsr g.arch I.order w.xt = _ :=
    (hdone.vsr w.xt).trans (GuestState.vsr_withVsr _)
  rw [hvsr]
  exact elementAt_ofElements (by cases v <;> decide) hi

theorem elements_stored {v : Word} (h : g.Moves I w (elementwise v true) a m out) {i : Nat}
    (hi : i < 128 / v.ty.bits) :
    (view out.memory).read g.host (a + .ofNat _ (i * v.ty.bytes)) v.ty =
      elementAt v.ty.bits (m.state.vsr g.arch I.order w.xt) i := by
  obtain ⟨-, cia, hdone⟩ := h.done hI hview
  exact hdone.stored rfl hi

/-- A scalar load writes both halves. -/
theorem scalar_loaded {d : Datum} {copied : Bool}
    (h : g.Moves I w { item := .scalar d copied } a m out) :
    let y := d.widened I ((view m.memory).read g.host a d.ty)
    out.state.vsr g.arch I.order w.xt = y ++ if copied then y else 0 := by
  obtain ⟨-, cia, hdone⟩ := h.done hI hview
  have hfirst : (Move.fetched { item := .scalar d copied } (g.env cia cia) a (view m.memory) 0) =
      (view m.memory).read g.host a d.ty := Move.fetched_zero _ _ _ _
  refine (hdone.vsr w.xt).trans ((GuestState.vsr_withVsr _).trans ?_)
  exact congrArg (fun y => d.widened I y ++ if copied then d.widened I y else 0) hfirst

theorem scalar_stored {d : Datum}
    (h : g.Moves I w { item := .scalar d false, store := true } a m out) :
    (view out.memory).read g.host a d.ty =
      d.narrowed I (m.state.roundingMode g.arch) (high (m.state.vsr g.arch I.order w.xt)) := by
  obtain ⟨-, cia, hdone⟩ := h.done hI hview
  exact hdone.stored_first rfl

/-! ### Floating-point registers -/

theorem fpr_loaded {d : Datum} {update : Bool}
    (h : g.Moves I w { item := .fpr d, update } a m out) :
    out.state.fpr g.arch g.host I.order w.rd =
      d.widened I ((view m.memory).read g.host a d.ty) := by
  obtain ⟨-, cia, hdone⟩ := h.done hI hview
  refine (hdone.fpr w.rd).trans (GuestState.fpr_withFpr.trans ?_)
  exact congrArg (d.widened I) (Move.fetched_zero { item := .fpr d, update } (g.env cia cia) a _)

theorem fpr_stored {d : Datum} {update : Bool}
    (h : g.Moves I w { item := .fpr d, store := true, update } a m out) :
    (view out.memory).read g.host a d.ty =
      d.narrowed I (m.state.roundingMode g.arch) (m.state.fpr g.arch g.host I.order w.rd) := by
  obtain ⟨-, cia, hdone⟩ := h.done hI hview
  exact hdone.stored_first rfl

/-- The low half of the vector-scalar register stays. -/
theorem half_loaded (horder : I.order = g.host) {d : Datum} {update : Bool}
    (h : g.Moves I w { item := .fpr d, update } a m out) :
    out.state.vsr g.arch I.order w.rd = withHigh (m.state.vsr g.arch I.order w.rd)
      (d.widened I ((view m.memory).read g.host a d.ty)) := by
  obtain ⟨-, cia, hdone⟩ := h.done hI hview
  have hwritten (y : BitVec 64) :
      (m.state.withFpr g.arch g.host I.order w.rd y).vsr g.arch I.order w.rd =
        withHigh (m.state.vsr g.arch I.order w.rd) y := by
    rw [horder]
    exact GuestState.vsr_withFpr y
  refine (hdone.vsr w.rd).trans ((hwritten _).trans ?_)
  exact congrArg (fun y => withHigh (m.state.vsr g.arch I.order w.rd) (d.widened I y))
    (Move.fetched_zero { item := .fpr d, update } (g.env cia cia) a _)

theorem pair_even {store : Bool} (h : g.Moves I w (pairMove store) a m out) : w.rd % 2 = 0 := by
  by_contra hodd
  exact (h.done hI hview).1 (.inr ⟨rfl, hodd⟩)

theorem pair_loaded (h : g.Moves I w (pairMove false) a m out) {i : Nat} (hi : i < 2) :
    out.state.fpr g.arch g.host I.order (w.rd + i) =
      (view m.memory).read g.host (a + .ofNat _ (i * 8)) .f64 := by
  obtain ⟨-, cia, hdone⟩ := h.done hI hview
  refine (hdone.fpr _).trans ?_
  obtain rfl | rfl : i = 0 ∨ i = 1 := by omega
  · exact (GuestState.fpr_withFpr_of_ne (Nat.succ_ne_self w.rd)).trans GuestState.fpr_withFpr
  · exact GuestState.fpr_withFpr

theorem pair_stored (h : g.Moves I w (pairMove true) a m out) {i : Nat} (hi : i < 2) :
    (view out.memory).read g.host (a + .ofNat _ (i * 8)) .f64 =
      m.state.fpr g.arch g.host I.order (w.rd + i) := by
  obtain ⟨-, cia, hdone⟩ := h.done hI hview
  exact hdone.stored rfl hi

end

/-! ### The same bytes in several views -/

/-- In the big-endian order, elements of all sizes make up one vector. -/
theorem loaded_whole (hI : I.Floating) (hview : I.Wordwise g.arch view) (hbig : g.host = .big)
    {v : Word} (h : g.Moves I w (elementwise v false) a m out) :
    out.state.vsr g.arch I.order w.xt = (view m.memory).read .big a .v128 := by
  refine (eq_ofElements (by cases v <;> decide) fun i hi => ?_).trans
    (WordMemory.read_eq_ofElements v).symm
  rw [h.elements_loaded hI hview hi, hbig]

/-! ### What is stored comes back -/

section

variable (hI : I.Floating) (hview : I.Wordwise g.arch view) (hmemory : m'.memory = out.memory)

include hI hview hmemory

theorem elements_back {v : Word} (h : g.Moves I w (elementwise v true) a m out)
    (h' : g.Moves I w' (elementwise v false) a m' out') :
    out'.state.vsr g.arch I.order w'.xt = m.state.vsr g.arch I.order w.xt := by
  have hn : v.ty.bits ∣ 128 := by cases v <;> decide
  refine (eq_ofElements hn fun i hi => ?_).trans (eq_ofElements hn fun _ _ => rfl).symm
  rw [h'.elements_loaded hI hview hi, hmemory, h.elements_stored hI hview hi]

/-- A double word that is stored as a scalar. -/
theorem scalar_double_stored
    (h : g.Moves I w { item := .scalar .double false, store := true } a m out) :
    (view m'.memory).read g.host a .f64 = high (m.state.vsr g.arch I.order w.xt) := by
  rw [hmemory]
  exact h.scalar_stored hI hview

theorem scalar_back (h : g.Moves I w { item := .scalar .double false, store := true } a m out)
    (h' : g.Moves I w' { item := .scalar .double false } a m' out') :
    out'.state.vsr g.arch I.order w'.xt =
      high (m.state.vsr g.arch I.order w.xt) ++ (0 : BitVec 64) :=
  (h'.scalar_loaded hI hview).trans
    (congrArg (fun y : BitVec 64 => y ++ (0 : BitVec 64)) (h.scalar_double_stored hI hview hmemory))

theorem fpr_of_scalar {update : Bool}
    (h : g.Moves I w { item := .scalar .double false, store := true } a m out)
    (h' : g.Moves I w' { item := .fpr .double, update } a m' out') :
    out'.state.fpr g.arch g.host I.order w'.rd = high (m.state.vsr g.arch I.order w.xt) :=
  (h'.fpr_loaded hI hview).trans (h.scalar_double_stored hI hview hmemory)

theorem fpr_back {update update' : Bool}
    (h : g.Moves I w { item := .fpr .double, store := true, update } a m out)
    (h' : g.Moves I w' { item := .fpr .double, update := update' } a m' out') :
    out'.state.fpr g.arch g.host I.order w'.rd = m.state.fpr g.arch g.host I.order w.rd := by
  refine (h'.fpr_loaded hI hview).trans ?_
  rw [hmemory]
  exact h.fpr_stored hI hview

theorem pair_back (h : g.Moves I w (pairMove true) a m out)
    (h' : g.Moves I w' (pairMove false) a m' out') {i : Nat} (hi : i < 2) :
    out'.state.fpr g.arch g.host I.order (w'.rd + i) =
      m.state.fpr g.arch g.host I.order (w.rd + i) := by
  rw [h'.pair_loaded hI hview hi, hmemory, h.pair_stored hI hview hi]

end

end Guest.Moves

/-! ## Aligned vectors -/

/-- An aligned address is its own quadword. -/
theorem and_highMask_eq_self (arch : Arch) {a : BitVec arch.word.ty.bits}
    (ha : a.toNat % 16 = 0) : a &&& (~~~(15 : BitVec 64)).setWidth arch.word.ty.bits = a := by
  have hmask : (~~~(15 : BitVec 64)).setWidth arch.word.ty.bits = ~~~.ofNat _ (2 ^ 4 - 1) := by
    cases arch <;> decide
  have hwide : 4 ≤ arch.word.ty.bits := by cases arch <;> decide
  refine BitVec.eq_of_toNat_eq ?_
  rw [hmask, toNat_and_high a hwide]
  omega

namespace VectorInteger

open Point (Since)

variable {env : Env} {c : Point M} {w : Insn} {view : M → WordMemory env.arch.word.ty.bits}

/-- A load of a vector reads the quadword around its address. -/
theorem loadVector_comes (hI : I.Modular) (hview : I.Wordwise env.arch view)
    (hlayout : env.layout = env.arch) (hnext : c.progress.next = .continue)
    (hopcode : w.opcode = 31) (hload : w.IsVectorLoad) :
    Comes env I c (lift w) (w.record = true) (Filled env I (w.rd + 32)
      ((view c.memory).read env.host (Offset.index.address env.arch I.order w false c.state &&&
        (~~~(15 : BitVec 64)).setWidth _) .v128) c.state c.memory) := by
  have hcode : ∃ name, lift w = transfer w (load w name) := by
    unfold lift memory transfer
    rcases hload with h | h <;> simp only [hopcode, h] <;> exact ⟨_, rfl⟩
  obtain ⟨name, hcode⟩ := hcode
  rw [hcode]
  refine (Comes.guard (Lift.reservedClear_refuses w _ _) fun _ => ?_).congr (or_iff_left id)
  obtain ⟨e, hexec, he⟩ := LoadStore.ea_knows (c := c) hI hlayout w false .index
  refine .give hexec (.bind (he.has rfl) fun e c₁ _ hstate₁ hmemory₁ he => ?_)
  refine .noted fun c₂ _ hstate₂ hmemory₂ => ?_
  have : Since c c₂ := Since.trans c₁
  have hstate : c₂.state = c.state := hstate₂.trans hstate₁
  have hmemory : c₂.memory = c.memory := hmemory₂.trans hmemory₁
  have he₂ : c₂.Knows I (fun _ => True) e _ := he.since
  have hquad := (he₂.and (Point.knows_imm (~~~(15 : BitVec 64))) hI.toBitwise).always
  have hloaded : c₂.Has I (.load env.host .v128 _) _ :=
    hquad.loadWord hview env.host Ty.noConfusion
  rw [hmemory] at hloaded
  exact .give rfl (.give rfl (.fillVr hlayout (Since.next_eq hnext) hstate hmemory hloaded))

end VectorInteger

/-- A load of a vector whose address is aligned reads it from there. -/
theorem Guest.Leaves.vector_loaded {g : Guest} {w : Insn} {m : Machine M} {out : Left M}
    {view : M → WordMemory g.arch.word.ty.bits} (h : g.Leaves I w m out) (hI : I.Modular)
    (hview : I.Wordwise g.arch view) (hopcode : w.opcode = 31) (hload : w.IsVectorLoad)
    (haligned : (Offset.index.address g.arch I.order w false m.state).toNat % 16 = 0) :
    out.state.vsr g.arch I.order (w.rd + 32) =
      (view m.memory).read g.host (Offset.index.address g.arch I.order w false m.state) .v128 := by
  have hmem : w.xo10 ∈ [103, 135, 167, 199, 231, 359, 487] := by
    rcases hload with h | h <;> simp [h]
  obtain ⟨⟨pattern, gates, family⟩, hroute, rfl⟩ := Route.find?_vectorTransfer hopcode hmem
  let refused := Route.Closed ⟨pattern, gates, .vectorInteger⟩ g ∨ w.record = true
  have hperforms : g.Performs w I refused fun _ _ m out =>
      out.state.vsr g.arch I.order (w.rd + 32) =
        (view m.memory).read g.host (Offset.index.address g.arch I.order w false m.state &&&
          (~~~(15 : BitVec 64)).setWidth _) .v128 := by
    refine Guest.performs hroute (by omega) (w.record = true) Iff.rfl
      fun env c hlayout henv hnext => ?_
    obtain ⟨cia, blockStart, rfl⟩ := henv
    refine (VectorInteger.loadVector_comes hI hview hlayout hnext hopcode hload).mono Iff.rfl
      fun next flow hfilled => ?_
    rw [hfilled.2]
    exact GuestState.vsr_withVsr _
  obtain ⟨-, -, -, hloaded⟩ := hperforms.leaves h
  rw [hloaded, and_highMask_eq_self g.arch haligned]

/-- Every access of floating-point and vector-scalar registers moves what its form says, and nothing
else. Elements of vectors stand in memory from the most significant one on, a scalar goes to the
high half, and a floating-point register is the high half of a vector-scalar one. So a load gets
what a store has put to its address, in the same view or in another. -/
theorem Guest.floats_come_back (g : Guest) (hI : I.Floating)
    {view : M → WordMemory g.arch.word.ty.bits} (hview : I.Wordwise g.arch view)
    (horder : I.order = g.host) :
    (∀ {w : Insn} {x : Move} {o : Offset}, w.FloatForm x o →
      g.Performs w I (g.Lacks x.item.gates ∨ w.Reserves o x.item ∨ x.Clashes w)
        fun cia next m out => next = .continue ∧ x.Done (g.env cia cia) I view w
          (o.address g.arch I.order w x.update m.state) m.memory m.state out) ∧
    (∀ {w : Insn} {x : Move} {a : BitVec g.arch.word.ty.bits} {m : Machine M} {out : Left M},
      g.Moves I w x a m out →
      (x.update = true → w.ra ≠ 0 ∧ out.state.operand g.arch I.order w.ra = a) ∧
      (∀ o, x.store = true ∨ ¬x.item.Covers g.arch g.host w o →
        (x.update = true → ¬GuestState.InOperand g.arch w.ra o) → out.state o = m.state o) ∧
      ∀ b, x.store = false ∨ ¬(b - a).toNat < x.item.count * x.item.ty.bytes →
        view out.memory b = view m.memory b) ∧
    (∀ {w : Insn} {v : Word} {a : BitVec g.arch.word.ty.bits} {m : Machine M} {out : Left M},
      (g.Moves I w (elementwise v false) a m out → ∀ i < 128 / v.ty.bits,
        elementAt v.ty.bits (out.state.vsr g.arch I.order w.xt) i =
          (view m.memory).read g.host (a + .ofNat _ (i * v.ty.bytes)) v.ty) ∧
      (g.Moves I w (elementwise v true) a m out → ∀ i < 128 / v.ty.bits,
        (view out.memory).read g.host (a + .ofNat _ (i * v.ty.bytes)) v.ty =
          elementAt v.ty.bits (m.state.vsr g.arch I.order w.xt) i)) ∧
    (∀ {w : Insn} {d : Datum} {copied : Bool} {a : BitVec g.arch.word.ty.bits} {m : Machine M}
      {out : Left M}, g.Moves I w { item := .scalar d copied } a m out →
      let y := d.widened I ((view m.memory).read g.host a d.ty)
      out.state.vsr g.arch I.order w.xt = y ++ if copied then y else 0) ∧
    (∀ {w : Insn} {d : Datum} {update : Bool} {a : BitVec g.arch.word.ty.bits} {m : Machine M}
      {out : Left M},
      (g.Moves I w { item := .fpr d, update } a m out →
        out.state.vsr g.arch I.order w.rd = withHigh (m.state.vsr g.arch I.order w.rd)
          (d.widened I ((view m.memory).read g.host a d.ty))) ∧
      (g.Moves I w { item := .fpr d, store := true, update } a m out →
        (view out.memory).read g.host a d.ty = d.narrowed I (m.state.roundingMode g.arch)
          (high (m.state.vsr g.arch I.order w.rd)))) ∧
    (∀ {w : Insn} {a : BitVec g.arch.word.ty.bits} {m : Machine M} {out : Left M},
      (g.Moves I w (pairMove false) a m out → w.rd % 2 = 0 ∧ ∀ i < 2,
        out.state.fpr g.arch g.host I.order (w.rd + i) =
          (view m.memory).read g.host (a + .ofNat _ (i * 8)) .f64) ∧
      (g.Moves I w (pairMove true) a m out → w.rd % 2 = 0 ∧ ∀ i < 2,
        (view out.memory).read g.host (a + .ofNat _ (i * 8)) .f64 =
          m.state.fpr g.arch g.host I.order (w.rd + i))) ∧
    (∀ {w w' : Insn} {x x' : Move} {a : BitVec g.arch.word.ty.bits} {m m' : Machine M}
      {out out' : Left M}, g.Moves I w x a m out → g.Moves I w' x' a m' out' →
      m'.memory = out.memory →
      (x.item = .fpr .double → x.store = true → x'.item = .fpr .double → x'.store = false →
        out'.state.fpr g.arch g.host I.order w'.rd = m.state.fpr g.arch g.host I.order w.rd) ∧
      (x = pairMove true → x' = pairMove false → ∀ i < 2,
        out'.state.fpr g.arch g.host I.order (w'.rd + i) =
          m.state.fpr g.arch g.host I.order (w.rd + i)) ∧
      (∀ v, x = elementwise v true → x' = elementwise v false →
        out'.state.vsr g.arch I.order w'.xt = m.state.vsr g.arch I.order w.xt) ∧
      (x = { item := .scalar .double false, store := true } →
        (x' = { item := .scalar .double false } → out'.state.vsr g.arch I.order w'.xt =
          high (m.state.vsr g.arch I.order w.xt) ++ (0 : BitVec 64)) ∧
        (x'.item = .fpr .double → x'.store = false →
          out'.state.fpr g.arch g.host I.order w'.rd =
            high (m.state.vsr g.arch I.order w.xt)))) ∧
    (g.host = .big → ∀ {w : Insn} {a : BitVec g.arch.word.ty.bits} {m : Machine M} {out : Left M},
      (∀ v, g.Moves I w (elementwise v false) a m out →
        out.state.vsr g.arch I.order w.xt = (view m.memory).read .big a .v128) ∧
      (w.opcode = 31 → w.IsVectorLoad → g.Leaves I w m out →
        Offset.index.address g.arch I.order w false m.state = a → a.toNat % 16 = 0 →
        out.state.vsr g.arch I.order (w.rd + 32) = (view m.memory).read .big a .v128)) := by
  refine ⟨fun hform => g.float_performs hI hview hform, fun h => ⟨h.updates hI hview,
    fun o ho => h.kept hI hview ho, fun b hb => h.memory_kept hI hview hb⟩, ?_, ?_, ?_, ?_, ?_, ?_⟩
  · exact ⟨fun h i => h.elements_loaded hI hview, fun h i => h.elements_stored hI hview⟩
  · exact fun h => h.scalar_loaded hI hview
  · intro w d update a m out
    refine ⟨fun h => h.half_loaded hI hview horder, fun h => ?_⟩
    have hhalf : m.state.fpr g.arch g.host I.order w.rd =
        high (m.state.vsr g.arch I.order w.rd) := by
      rw [horder]
      exact GuestState.fpr_eq_high
    rw [← hhalf]
    exact h.fpr_stored hI hview
  · exact ⟨fun h => ⟨h.pair_even hI hview, fun i => h.pair_loaded hI hview⟩,
      fun h => ⟨h.pair_even hI hview, fun i => h.pair_stored hI hview⟩⟩
  · rintro w w' ⟨item, store, update⟩ ⟨item', store', update'⟩ a m m' out out' h h' hmemory
    refine ⟨?_, ?_, fun v hx hx' => ?_, fun hx => ⟨fun hx' => ?_, ?_⟩⟩
    · rintro rfl rfl rfl rfl
      exact h.fpr_back hI hview hmemory h'
    · rintro hx hx' i hi
      exact (hx ▸ h).pair_back hI hview hmemory (hx' ▸ h') hi
    · exact (hx ▸ h).elements_back hI hview hmemory (hx' ▸ h')
    · exact (hx ▸ h).scalar_back hI hview hmemory (hx' ▸ h')
    · rintro rfl rfl
      exact (hx ▸ h).fpr_of_scalar hI hview hmemory h'
  · intro hbig w a m out
    refine ⟨fun v h => h.loaded_whole hI hview hbig, fun hopcode hload h haddress haligned => ?_⟩
    subst haddress
    rw [h.vector_loaded hI.toModular hview hopcode hload haligned, hbig]

namespace Interp

/-- The operators on integers and vectors, and those that take numbers for bits. -/
def floatingOp : (op : Op) → List Value → BitVec op.signature.ret.bits
  | .float .bits64 => unary .f64 fun x => x
  | .float .ofBits64 => unary .i64 fun x => x
  | op => vectorOp op

/-- The interpretation with memory in bytes and the arithmetic of integers and vectors. -/
def floating (order : ByteOrder) : Interp Reserved := { bytewise order with op := floatingOp }

theorem floating_bytewise (order : ByteOrder) : (floating order).Bytewise Reserved.bytes where
  load := (bytewise_bytewise order).load
  store := (bytewise_bytewise order).store
  storeConditional := (bytewise_bytewise order).storeConditional

theorem floating_floating (order : ByteOrder) : (floating order).Floating where
  toVectors := (vectors_vectors order).congr fun op hop => by
    cases op with
    | float f => exact absurd rfl (hop f)
    | _ => rfl
  bits64 x := unary_mk (fun x : BitVec Ty.f64.bits => x) x
  ofBits64 x := unary_mk (fun x : BitVec Ty.i64.bits => x) x

end Interp

/-- The words `stxvw4x vs40,r4,r5` and `lxvw4x vs3,r4,r5` copy a register by way of memory. -/
theorem Guest.floats_come_back_words :
    let g : Guest := { arch := .ppc64, host := .big, info := { caps := ⟨Capability.ppc64VX.mask⟩ } }
    let start : Machine Interp.Reserved := .start ⟨fun _ => 0, false⟩ fun o => .ofNat 8 o
    ∃ out out', g.Leaves (.floating .big) ⟨0x7D042F19⟩ start out ∧
      g.Leaves (.floating .big) ⟨0x7C642E18⟩ { start with memory := out.memory } out' ∧
      out'.state.vsr .ppc64 .big 3 = 0x808182838485868788898A8B8C8D8E8F := by
  intro g start
  have hI := Interp.floating_floating .big
  have hview := (Interp.floating_bytewise .big).wordwise
  obtain ⟨hperforms, -, -, -, -, -, hback, -⟩ := g.floats_come_back hI hview rfl
  have hstore : (⟨0x7D042F19⟩ : Insn).FloatForm (elementwise .w32 true) .index :=
    .vectorScalar (by decide) (by decide)
  have hload : (⟨0x7C642E18⟩ : Insn).FloatForm (elementwise .w32 false) .index :=
    .vectorScalar (by decide) (by decide)
  have hopen : ¬g.Lacks [.vsx] := by
    rintro ⟨gate, hgate, hclosed⟩
    rw [List.mem_singleton.mp hgate] at hclosed
    revert hclosed
    decide
  obtain ⟨out, hout⟩ := (hperforms hstore).exists_leaves (by decide) ⟨#[0x7D, 0x04, 0x2F, 0x19]⟩
    (by decide) (not_or.mpr ⟨hopen, by simp [Insn.Reserves, Move.Clashes, elementwise]⟩) start
  obtain ⟨out', hout'⟩ := (hperforms hload).exists_leaves (by decide) ⟨#[0x7C, 0x64, 0x2E, 0x18]⟩
    (by decide) (not_or.mpr ⟨hopen, by simp [Insn.Reserves, Move.Clashes, elementwise]⟩)
    { start with memory := out.memory }
  refine ⟨out, out', hout, hout', ?_⟩
  have hstored : g.Moves (.floating .big) ⟨0x7D042F19⟩ (elementwise .w32 true)
      (Offset.index.address .ppc64 .big ⟨0x7D042F19⟩ false start.state) start out :=
    ⟨⟨.index, hstore, rfl⟩, hout⟩
  have hloaded : g.Moves (.floating .big) ⟨0x7C642E18⟩ (elementwise .w32 false)
      (Offset.index.address .ppc64 .big ⟨0x7D042F19⟩ false start.state)
      { start with memory := out.memory } out' := ⟨⟨.index, hload, rfl⟩, hout'⟩
  exact ((hback hstored hloaded rfl).2.2.1 .w32 rfl rfl).trans (by decide +kernel)

end PowerLift
