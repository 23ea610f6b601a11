import PowerLift.Proofs.Routes
import PowerLift.Proofs.TransferForms
import PowerLift.Proofs.VectorScalarTransfers

/-!
# Forms of floating-point and vector-scalar accesses

The words that load and store floating-point and vector-scalar registers, told by their opcodes:
what they move, what they add to the base register, and for what they are refused.
-/

namespace PowerLift

open FloatingPoint (Move Item Datum Transfer pairMove)
open LoadStore (Offset)
open Point (Knows Has Step Since)

variable {M : Type} {I : Interp M} {env : Env} {c : Point M} {w : Insn} {x : FloatingPoint.Move}
  {o : Offset}

/-! ## Accesses by opcode -/

namespace FloatingPoint

namespace Move

/-- Accesses of singles and doubles, in the order of their opcodes. Every other one updates its base
register. -/
def ofRow? (k : Nat) : Option Move :=
  let update := k % 2 == 1
  match k / 2 with
  | 0 => some { item := .fpr .single, update }
  | 1 => some { item := .fpr .double, update }
  | 2 => some { item := .fpr .single, store := true, update }
  | 3 => some { item := .fpr .double, store := true, update }
  | _ => none

/-- Accesses of one register with an indexed address, by extended opcode. Its last five bits are the
same for all of them. -/
def ofIndexed? (xo : Nat) : Option Move :=
  match xo % 32, xo / 32 with
  | 23, 26 => some { item := .fpr (.word true) }
  | 23, 27 => some { item := .fpr (.word false) }
  | 23, 30 => some { item := .fpr (.word false), store := true }
  | 23, k => if 16 ≤ k then ofRow? (k - 16) else none
  | _, _ => none

theorem ofRow?_lt {k : Nat} (h : ofRow? k = some x) : k < 8 := by
  unfold ofRow? at h
  split at h <;> first | omega | cases h

/-- The rows move single registers. -/
theorem ofRow?_item {k : Nat} (h : ofRow? k = some x) : ∃ d, x.item = .fpr d := by
  unfold ofRow? at h
  split at h <;> cases h <;> exact ⟨_, rfl⟩

/-- Extended opcodes of indexed accesses of one register. -/
def indexedForms : List Nat := [535, 567, 599, 631, 663, 695, 727, 759, 855, 887, 983]

theorem mem_indexedForms {xo : Nat} (h : ofIndexed? xo = some x) : xo ∈ indexedForms := by
  unfold ofIndexed? at h
  simp only [indexedForms, List.mem_cons, List.not_mem_nil, or_false]
  split at h
  case h_4 hlow _ _ _ =>
    obtain ⟨hle, hrow⟩ := Option.ite_none_right_eq_some.mp h
    have hlt := ofRow?_lt hrow
    omega
  all_goals first | omega | cases h

theorem ofIndexed?_item {xo : Nat} (h : ofIndexed? xo = some x) : ∃ d, x.item = .fpr d := by
  unfold ofIndexed? at h
  split at h
  case h_4 => exact ofRow?_item (Option.ite_none_right_eq_some.mp h).2
  all_goals
    cases h
    try exact ⟨_, rfl⟩

end Move

theorem Transfer.ofOpcode?_moves : ∀ k < 8,
    (ofOpcode? (48 + k)).map move = Move.ofRow? k := by
  decide

theorem Transfer.ofIndexed?_moves : ∀ xo ∈ Move.indexedForms,
    (ofIndexed? xo).map move = Move.ofIndexed? xo := by
  decide

/-- What a processor needs for an access. -/
def Item.gates : Item → List Gate
  | fpr _ | pair => [.fp]
  | scalar .double _ | elements _ => [.vsx]
  | scalar _ _ => [.vsx, .isa207]

end FloatingPoint

namespace Insn

/-- The accesses of floating-point and vector-scalar registers, by what they do and by what they add
to the base. -/
inductive FloatForm (w : Insn) : Move → Offset → Prop where
  | immediate {k : Nat} {x : Move} (hopcode : w.opcode = 48 + k) (hmove : Move.ofRow? k = some x) :
      FloatForm w x (.disp ((w.raw.setWidth 16).signExtend 64))
  | indexed {x : Move} (hopcode : w.opcode = 31) (hmove : Move.ofIndexed? w.xo10 = some x) :
      FloatForm w x .index
  | pair {store : Bool} (hopcode : w.opcode = if store then 61 else 57) (hxo : w.xo2 = 0) :
      FloatForm w (pairMove store) (.disp (w.displacement 14))
  | pairIndexed {store : Bool} (hopcode : w.opcode = 31)
      (hxo : w.xo10 = if store then 919 else 791) : FloatForm w (pairMove store) .index
  | vectorScalar {x : Move} (hopcode : w.opcode = 31)
      (hmove : VectorScalarMemory.move? w.xo10 = some x) : FloatForm w x .index

/-- Indexed forms of floating-point registers have a reserved bit. Where a vector-scalar register is
named, the bit belongs to its number. -/
def Reserves (w : Insn) (o : Offset) : Item → Prop
  | .fpr _ | .pair => o.Reserved w
  | .scalar _ _ | .elements _ => False

end Insn

/-! ## Lifting -/

section

variable {view : M → WordMemory env.arch.word.ty.bits} (hI : I.Floating)
  (hview : I.Wordwise env.arch view) (hlayout : env.layout = env.arch)
  (hnext : c.progress.next = .continue)

include hI hview hlayout hnext

namespace FloatingPoint

theorem immediate_comes {k : Nat} (hopcode : w.opcode = 48 + k) (hmove : Move.ofRow? k = some x) :
    Comes env I c (lift w) (x.Clashes w) fun next flow => next = .continue ∧
      x.Done env I view w ((Offset.disp ((w.raw.setWidth 16).signExtend 64)).address env.arch
        I.order w x.update c.state) c.memory c.state (env.leave I next flow) := by
  have hk := Move.ofRow?_lt hmove
  obtain ⟨t, hrow, rfl⟩ := Option.map_eq_some_iff.mp ((Transfer.ofOpcode?_moves k hk).trans hmove)
  obtain ⟨line, what, hcode⟩ := immediate_transfer (w := w) (hopcode ▸ hrow)
  rw [lift, if_pos (by omega), hcode]
  exact transfer_comes hI hview hlayout hnext t _ line what

theorem indexed_comes (hopcode : w.opcode = 31) (hmove : Move.ofIndexed? w.xo10 = some x) :
    Comes env I c (lift w) (w.record = true ∨ x.Clashes w) fun next flow => next = .continue ∧
      x.Done env I view w (Offset.index.address env.arch I.order w x.update c.state) c.memory
        c.state (env.leave I next flow) := by
  obtain ⟨t, hrow, rfl⟩ := Option.map_eq_some_iff.mp
    ((Transfer.ofIndexed?_moves _ (Move.mem_indexedForms hmove)).trans hmove)
  obtain ⟨reserved, line, what, hcode⟩ := indexed_transfer hrow
  have hlift : lift w = indexed w := by
    rw [lift, hopcode]
    rfl
  rw [hlift, hcode]
  exact .guard (Lift.reservedClear_refuses w _ _) fun _ =>
    transfer_comes hI hview hlayout hnext t .index line what

theorem pairDoubleword_comes {store : Bool} (hopcode : w.opcode = if store then 61 else 57)
    (hxo : w.xo2 = 0) :
    Comes env I c (lift w) ((pairMove store).Clashes w) fun next flow => next = .continue ∧
      (pairMove store).Done env I view w ((Offset.disp (w.displacement 14)).address env.arch I.order
        w false c.state) c.memory c.state (env.leave I next flow) := by
  have hlift : lift w = pair w store false := by
    cases store <;> simp [lift, hopcode, hxo]
  rw [hlift]
  exact pair_comes hI hview hlayout hnext store false

theorem pairIndexed_comes {store : Bool} (hopcode : w.opcode = 31)
    (hxo : w.xo10 = if store then 919 else 791) :
    Comes env I c (lift w) (w.record = true ∨ (pairMove store).Clashes w) fun next flow =>
      next = .continue ∧ (pairMove store).Done env I view w (Offset.index.address env.arch I.order
        w false c.state) c.memory c.state (env.leave I next flow) := by
  have hlift : lift w = Lift.reservedClear w w.record "FP X-form load/store bit 31" >>= fun _ =>
      pair w store true := by
    cases store <;> simp [lift, indexed, hopcode, hxo]
  rw [hlift]
  exact .guard (Lift.reservedClear_refuses w _ _) fun _ =>
    pair_comes hI hview hlayout hnext store true

end FloatingPoint

end

namespace VectorScalarMemory

theorem ofXo10_move {xo : Nat} (hmove : move? xo = some x) : Route.ofXo10 xo =
    some ⟨.xo10 [12, 51, 76, 115, 140, 179, 211, 243, 332, 524, 588, 652, 716, 780, 844, 908, 972],
      [.vsx], .vectorScalarMemory⟩ := by
  unfold move? at hmove
  split at hmove
  all_goals cases hmove
  all_goals decide

/-- Accesses of vector-scalar registers neither update a register nor move pairs. -/
theorem move?_plain {xo : Nat} (hmove : move? xo = some x) :
    x.update = false ∧ x.item ≠ .pair ∧ ¬w.Reserves o x.item := by
  unfold move? at hmove
  split at hmove
  all_goals cases hmove
  all_goals exact ⟨rfl, Item.noConfusion, id⟩

theorem move?_gates {xo : Nat} (hmove : move? xo = some x) :
    x.item.gates = if xo ∈ since207 then [.vsx, .isa207] else [.vsx] := by
  unfold move? at hmove
  split at hmove
  all_goals cases hmove
  all_goals rfl

end VectorScalarMemory

/-! ## Whole instructions -/

/-- A word performs an access if its lifting comes to it. -/
theorem Guest.access_performs (g : Guest) {view : M → WordMemory g.arch.word.ty.bits}
    {route : Route} (hroute : Route.find? w = some route) (hopcode : w.opcode ≠ 21 ∧ w.opcode ≠ 30)
    (φ : Prop) {refused : Prop} (hrefused : route.Closed g ∨ φ ↔ refused)
    (hlift : ∀ (cia blockStart : BitVec 64) (c : Point M), g.layout = g.arch →
      c.progress.next = .continue →
      Comes (g.env cia blockStart) I c (route.family.lift w) φ fun next flow => next = .continue ∧
        x.Done (g.env cia blockStart) I view w (o.address g.arch I.order w x.update c.state)
          c.memory c.state ((g.env cia blockStart).leave I next flow)) :
    g.Performs w I refused fun cia next m out => next = .continue ∧
      x.Done (g.env cia cia) I view w (o.address g.arch I.order w x.update m.state) m.memory
        m.state out := by
  refine Guest.performs hroute hopcode φ hrefused fun env c hlayout henv hnext => ?_
  obtain ⟨cia, blockStart, rfl⟩ := henv
  exact (hlift cia blockStart c hlayout hnext).mono Iff.rfl fun _ _ h =>
    ⟨h.1, h.2.pc, h.2.kind, h.2.bytes, h.2.loads, h.2.state⟩

/-- Accesses of floating-point registers have one family. -/
theorem Guest.registers_perform (g : Guest) {view : M → WordMemory g.arch.word.ty.bits}
    {pattern : Pattern}
    (hroute : Route.find? w = some ⟨pattern, [.fp], .floatingPoint⟩)
    (hopcode : w.opcode ≠ 21 ∧ w.opcode ≠ 30) (hgates : x.item.gates = [.fp]) (φ : Prop)
    (hφ : φ ↔ w.Reserves o x.item ∨ x.Clashes w)
    (hlift : ∀ (cia blockStart : BitVec 64) (c : Point M), g.layout = g.arch →
      c.progress.next = .continue →
      Comes (g.env cia blockStart) I c (FloatingPoint.lift w) φ fun next flow =>
        next = .continue ∧ x.Done (g.env cia blockStart) I view w
          (o.address g.arch I.order w x.update c.state) c.memory c.state
            ((g.env cia blockStart).leave I next flow)) :
    g.Performs w I (g.Lacks x.item.gates ∨ w.Reserves o x.item ∨ x.Clashes w)
      fun cia next m out => next = .continue ∧ x.Done (g.env cia cia) I view w
        (o.address g.arch I.order w x.update m.state) m.memory m.state out := by
  refine g.access_performs hroute hopcode φ ?_ hlift
  rw [Route.closed_iff, hφ, hgates]
  rfl

section

variable (g : Guest) (hI : I.Floating) {view : M → WordMemory g.arch.word.ty.bits}
  (hview : I.Wordwise g.arch view)

include hI hview

/-- Every access of floating-point and vector-scalar registers moves what its form says. -/
theorem Guest.float_performs (hform : w.FloatForm x o) :
    g.Performs w I (g.Lacks x.item.gates ∨ w.Reserves o x.item ∨ x.Clashes w)
      fun cia next m out => next = .continue ∧ x.Done (g.env cia cia) I view w
        (o.address g.arch I.order w x.update m.state) m.memory m.state out := by
  cases hform with
  | @immediate k x hopcode hmove =>
      have hk := Move.ofRow?_lt hmove
      have hroutes : ∀ k < 8, Route.ofOpcode (48 + k) = Route.only .floatingPoint [.fp] := by decide
      obtain ⟨d, hitem⟩ := Move.ofRow?_item hmove
      refine g.registers_perform (Route.find?_only (hopcode ▸ hroutes k hk)) (by omega)
        (by rw [hitem]; rfl) (x.Clashes w) (by simp [hitem, Insn.Reserves, Offset.Reserved])
        fun cia blockStart c hlayout hnext =>
          FloatingPoint.immediate_comes hI hview hlayout hnext hopcode hmove
  | indexed hopcode hmove =>
      obtain ⟨_, hroute⟩ : ∃ pattern, Route.find? w = some ⟨pattern, [.fp], .floatingPoint⟩ :=
        Route.find?_forms hopcode (by decide) (Move.mem_indexedForms hmove)
      obtain ⟨d, hitem⟩ := Move.ofIndexed?_item hmove
      refine g.registers_perform hroute (by omega) (by rw [hitem]; rfl)
        (w.record = true ∨ x.Clashes w) (by simp [hitem, Insn.Reserves, Offset.Reserved])
        fun cia blockStart c hlayout hnext =>
          FloatingPoint.indexed_comes hI hview hlayout hnext hopcode hmove
  | @pair store hopcode hxo =>
      have hroute : Route.ofOpcode w.opcode = Route.only .floatingPoint [.fp] := by
        cases store <;> rw [hopcode] <;> rfl
      have hother : w.opcode ≠ 21 ∧ w.opcode ≠ 30 := by cases store <;> simp [hopcode]
      refine g.registers_perform (Route.find?_only hroute) hother rfl ((pairMove store).Clashes w)
        (by simp [pairMove, Insn.Reserves, Offset.Reserved])
        fun cia blockStart c hlayout hnext =>
          FloatingPoint.pairDoubleword_comes hI hview hlayout hnext hopcode hxo
  | @pairIndexed store hopcode hxo =>
      have hroute : ∃ pattern, Route.find? w = some ⟨pattern, [.fp], .floatingPoint⟩ := by
        refine Route.find?_form hopcode hxo ?_
        cases store <;> decide
      obtain ⟨pattern, hroute⟩ := hroute
      exact g.registers_perform hroute (by omega) rfl (w.record = true ∨ (pairMove store).Clashes w)
        (by simp [pairMove, Insn.Reserves, Offset.Reserved])
        fun cia blockStart c hlayout hnext =>
          FloatingPoint.pairIndexed_comes hI hview hlayout hnext hopcode hxo
  | vectorScalar hopcode hmove =>
      obtain ⟨hupdate, hpair, hreserved⟩ :=
        VectorScalarMemory.move?_plain (w := w) (o := .index) hmove
      refine g.access_performs ((Route.find?_register hopcode).trans
        (VectorScalarMemory.ofXo10_move hmove)) (by omega)
        (w.xo10 ∈ VectorScalarMemory.since207 ∧
          (Features.resolve g.arch g.info.caps).isa207 = false) ?_
        fun cia blockStart c hlayout hnext => ?_
      · rw [Route.closed_iff, VectorScalarMemory.move?_gates hmove]
        simp only [Guest.Lacks, Move.Clashes, hupdate, hpair, hreserved, Bool.false_eq_true,
          false_and, or_false]
        split
        next hmem => simp [hmem, Gate.isOpen]
        next hmem => simp [hmem]
      · rw [hupdate]
        exact VectorScalarMemory.lift_comes hI hview hlayout hnext hmove

end

end PowerLift
