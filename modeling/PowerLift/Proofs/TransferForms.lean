import PowerLift.Proofs.PairTransfers

/-!
# Forms of integer loads and stores

The words that load and store integers, told by their opcodes: what they move, what they add to the
base register, and for what they are refused.
-/

namespace PowerLift

open Lift (exec)
open Point (Knows Has Step Since)
open PowerLift.Expr (un bin)

variable {M : Type} {I : Interp M} {env : Env} {c : Point M} {w : Insn}

/-! ## Moves by opcode -/

namespace LoadStore

namespace Move

/-- Moves of words, bytes and halfwords, in the order of their opcodes. Every other one updates its
base register. -/
def ofRow? (k : Nat) : Option Move :=
  let update := k % 2 == 1
  match k / 2 with
  | 0 => some { width := .w32, update }
  | 1 => some { width := .w8, update }
  | 2 => some { width := .w32, store := true, update }
  | 3 => some { width := .w8, store := true, update }
  | 4 => some { width := .w16, update }
  | 5 => some { width := .w16, signed := true, update }
  | 6 => some { width := .w16, store := true, update }
  | _ => none

/-- Moves with an indexed address, by extended opcode. Its last five bits tell the rows apart, and
the bits before count within the row. -/
def ofIndexed? (xo : Nat) : Option Move :=
  let update := xo / 32 % 2 == 1
  match xo % 32, xo / 32 with
  | 23, k => ofRow? k
  | 21, 0 | 21, 1 => some { width := .w64, update }
  | 21, 4 | 21, 5 => some { width := .w64, store := true, update }
  | 21, 10 | 21, 11 => some { width := .w32, signed := true, update }
  | 22, 16 => some { width := .w32, reversed := true }
  | 22, 20 => some { width := .w32, store := true, reversed := true }
  | 22, 24 => some { width := .w16, reversed := true }
  | 22, 28 => some { width := .w16, store := true, reversed := true }
  | 20, 16 => some { width := .w64, reversed := true }
  | 20, 20 => some { width := .w64, store := true, reversed := true }
  | _, _ => none

/-- Moves with a doubleword displacement, by primary and extended opcode. -/
def ofDoubleword? : Nat → Nat → Option Move
  | 58, 0 => some { width := .w64 }
  | 58, 1 => some { width := .w64, update := true }
  | 58, 2 => some { width := .w32, signed := true }
  | 62, 0 => some { width := .w64, store := true }
  | 62, 1 => some { width := .w64, store := true, update := true }
  | _, _ => none

end Move

/-- The move that a transfer is. -/
def Transfer.move? (t : Transfer) : Option Move :=
  (Width.ofTy? t.ty).map fun width =>
    { width, store := t.store, signed := t.signed, update := t.update, reversed := t.reversed }

theorem Transfer.eq_transfer {t : Transfer} {x : Move} (h : t.move? = some x) :
    t = x.transfer t.name := by
  obtain ⟨name, ty, store, signed, update, reversed⟩ := t
  cases ty <;> simp only [move?, Width.ofTy?, Option.map_none, Option.map_some, Option.some.injEq,
    reduceCtorEq] at h <;> subst h <;> rfl

theorem Transfer.ofOpcode?_moves : ∀ k < 14,
    (ofOpcode? (32 + k)).bind move? = Move.ofRow? k := by
  decide

/-- Extended opcodes of indexed loads and stores. -/
def indexedForms : List Nat :=
  [21, 23, 53, 55, 87, 119, 149, 151, 181, 183, 215, 247, 279, 311, 341, 343, 373, 375, 407, 439,
    532, 534, 660, 662, 790, 918]

theorem Move.ofRow?_lt {k : Nat} {x : Move} (h : ofRow? k = some x) : k < 14 := by
  unfold ofRow? at h
  split at h <;> first | omega | cases h

theorem Move.mem_indexedForms {xo : Nat} {x : Move} (h : ofIndexed? xo = some x) :
    xo ∈ indexedForms := by
  unfold ofIndexed? at h
  simp only [indexedForms, List.mem_cons, List.not_mem_nil, or_false]
  split at h
  case h_1 hlow hhigh =>
    have hrow := ofRow?_lt h
    omega
  all_goals first | omega | cases h

theorem Transfer.ofIndexed?_moves : ∀ xo ∈ indexedForms,
    (ofIndexed? xo).bind move? = Move.ofIndexed? xo := by
  decide

theorem Transfer.ofDoubleword?_moves : ∀ opcode < 64, ∀ xo < 4,
    (ofDoubleword? opcode xo).bind move? = Move.ofDoubleword? opcode xo := by
  decide

end LoadStore

namespace Insn

open LoadStore (Move Offset)

/-- The loads and stores of one register, by what they do and by what they add to the base. -/
inductive MoveForm (w : Insn) : Move → Offset → Prop where
  | immediate {k : Nat} {x : Move} (hopcode : w.opcode = 32 + k) (hmove : Move.ofRow? k = some x) :
      MoveForm w x (.disp ((w.raw.setWidth 16).signExtend 64))
  | doubleword {x : Move} (hmove : Move.ofDoubleword? w.opcode w.xo2 = some x) :
      MoveForm w x (.disp (w.displacement 14))
  | indexed {x : Move} (hopcode : w.opcode = 31) (hmove : Move.ofIndexed? w.xo10 = some x) :
      MoveForm w x .index

end Insn

namespace LoadStore

/-- Indexed forms have a reserved bit. -/
def Offset.Reserved (w : Insn) : Offset → Prop
  | disp _ => False
  | index => w.record = true

instance (w : Insn) : (o : Offset) → Decidable (o.Reserved w)
  | .disp _ => .isFalse id
  | .index => inferInstanceAs (Decidable (w.record = true))

theorem exists_transfer {o : Option Transfer} {x : Move} (h : o.bind Transfer.move? = some x) :
    ∃ name, o = some (x.transfer name) := by
  obtain ⟨t, rfl, ht⟩ := Option.bind_eq_some_iff.mp h
  exact ⟨t.name, congrArg some (Transfer.eq_transfer ht)⟩

theorem Move.ofDoubleword?_cases {opcode xo : Nat} {x : Move}
    (h : ofDoubleword? opcode xo = some x) :
    (opcode = 58 ∨ opcode = 62 ∧ xo ≠ 2) ∧ x.Wide := by
  unfold ofDoubleword? at h
  split at h <;> cases h <;> simp [Wide]

theorem lift_doubleword (h : w.opcode = 58 ∨ w.opcode = 62 ∧ w.xo2 ≠ 2) :
    lift w = doubleword w := by
  unfold lift
  rcases h with h | ⟨h, hxo⟩
  · rw [h]
    rfl
  · rw [h, if_neg hxo]
    rfl

variable {x : Move} {o : Offset} {view : M → ByteMemory}

theorem lift_comes (hI : I.Scalar) (hview : I.Bytewise view) (hlayout : env.layout = env.arch)
    (hnext : c.progress.next = .continue) (hform : w.MoveForm x o) :
    Comes env I c (lift w) (o.Reserved w ∨ (x.Wide ∧ env.arch = .ppc32) ∨ x.Clashes w)
      fun next flow => next = .continue ∧
        x.Done env I view w (o.address env.arch I.order w x.update c.state) c.memory c.state
          (env.leave I next flow) := by
  cases hform with
  | @immediate k x hopcode hmove =>
      have hk := Move.ofRow?_lt hmove
      obtain ⟨name, htransfer⟩ := exists_transfer ((Transfer.ofOpcode?_moves k hk).trans hmove)
      obtain ⟨line, hdisplaced⟩ := displaced_eq w x name w.simm16
      rw [lift, if_pos (by omega), immediate, hopcode, htransfer]
      dsimp only
      rw [hdisplaced]
      exact (move_comes w x name hI hview hlayout hnext _ line).congr (by simp [Offset.Reserved])
  | doubleword hmove =>
      obtain ⟨hopcode, hwide⟩ := Move.ofDoubleword?_cases hmove
      obtain ⟨name, htransfer⟩ := exists_transfer
        ((Transfer.ofDoubleword?_moves w.opcode (w.bits_lt 26 6) w.xo2 (w.bits_lt 0 2)).trans hmove)
      rw [lift_doubleword hopcode]
      unfold doubleword
      rw [htransfer]
      obtain ⟨line, hdisplaced⟩ := displaced_eq w x name w.ds
      have hrest := move_comes w x name hI hview hlayout hnext (.disp (.ofInt 64 w.ds))
        line
      rw [← hdisplaced, ds_eq] at hrest
      refine (Comes.guard (Lift.needMode64_refuses w _) fun _ => hrest).congr ?_
      simp only [Offset.Reserved, hwide, true_and, or_false, false_or, ← or_assoc, or_self]
  | indexed hopcode hmove =>
      obtain ⟨name, htransfer⟩ := exists_transfer
        ((Transfer.ofIndexed?_moves _ (Move.mem_indexedForms hmove)).trans hmove)
      obtain ⟨what, line, hindexed⟩ := indexed_eq htransfer
      have hlift : lift w = indexed w := by
        rw [lift, hopcode]
        rfl
      rw [hlift, hindexed]
      refine (Comes.guard (Lift.reservedClear_refuses w _ _) fun _ =>
        move_comes w x name hI hview hlayout hnext .index line).congr ?_
      simp [Offset.Reserved]

end LoadStore

/-! ## Pairs by opcode -/

/-- The loads and stores of a pair of registers, and their displacements. -/
inductive Insn.PairForm (w : Insn) : Bool → BitVec 64 → Prop where
  | lq (hopcode : w.opcode = 56) : PairForm w false ((w.raw.extractLsb' 4 12 ++ 0#4).signExtend 64)
  | stq (hopcode : w.opcode = 62) (hxo : w.xo2 = 2) : PairForm w true (w.displacement 14)

theorem LoadStore.liftPair_comes (hI : I.Modular) {view : M → ByteMemory}
    (hview : I.Bytewise view) (hlayout : env.layout = env.arch)
    (hnext : c.progress.next = .continue) {store : Bool} {d : BitVec 64}
    (hform : w.PairForm store d) :
    Comes env I c (lift w)
      (env.arch = .ppc32 ∨ w.rd % 2 ≠ 0 ∨ (store = false ∧ (w.slice 28 4 ≠ 0 ∨ w.rd = w.ra)))
      fun next flow => next = .continue ∧
        PairDone store env I view w (Offset.address env.arch I.order w false c.state (.disp d))
          c.memory c.state (env.leave I next flow) := by
  cases hform with
  | lq hopcode =>
      have hlift : lift w = quadword w false := by
        rw [lift, hopcode]
        rfl
      rw [hlift]
      exact quadword_comes hI hview hlayout hnext false
  | stq hopcode hxo =>
      have hlift : lift w = quadword w true := by
        rw [lift, hopcode, hxo]
        rfl
      rw [hlift]
      exact quadword_comes hI hview hlayout hnext true

theorem Route.ofOpcode_62 : Route.ofOpcode 62 =
    [⟨.xo2 [2], [.mode64, .isa207], .loadStore⟩, ⟨.any, [.mode64], .loadStore⟩] := rfl

theorem Insn.MoveForm.route {x : LoadStore.Move} {o : LoadStore.Offset} (hform : w.MoveForm x o)
    (g : Guest) :
    ∃ route, Route.find? w = some route ∧ route.family = .loadStore ∧
      (route.Closed g → x.Wide ∧ g.arch = .ppc32) ∧ w.opcode ≠ 21 ∧ w.opcode ≠ 30 := by
  cases hform with
  | @immediate k x hopcode hmove =>
      have hk := LoadStore.Move.ofRow?_lt hmove
      have hroutes : ∀ k < 14, Route.ofOpcode (32 + k) = Route.only .loadStore [] := by decide
      exact ⟨_, Route.find?_only (hopcode ▸ hroutes k hk), rfl,
        fun h => absurd h (Route.not_closed g), by omega⟩
  | doubleword hmove =>
      obtain ⟨hopcode, hwide⟩ := LoadStore.Move.ofDoubleword?_cases hmove
      refine ⟨⟨.any, [.mode64], .loadStore⟩, ?_, rfl,
        fun h => ⟨hwide, (Route.closed_mode64 g).mp h⟩, by omega⟩
      rcases hopcode with h | ⟨h, hxo⟩
      · exact Route.find?_only (by rw [h]; rfl)
      · rw [Route.find?, h, Route.ofOpcode_62]
        simp [Pattern.accepts, hxo]
  | indexed hopcode hmove =>
      obtain ⟨_, hroute⟩ : ∃ pattern, Route.find? w = some ⟨pattern, [], .loadStore⟩ :=
        Route.find?_forms hopcode (by decide) (LoadStore.Move.mem_indexedForms hmove)
      exact ⟨_, hroute, rfl, fun h => absurd h (Route.not_closed g), by omega⟩

/-- Whether a quadword instruction is there on a processor: stores came later than loads. -/
def Guest.lacksPair (g : Guest) (store : Bool) : Prop :=
  g.arch = .ppc32 ∨ (store = true ∧ (Features.resolve g.arch g.info.caps).isa207 = false)

instance (g : Guest) (store : Bool) : Decidable (g.lacksPair store) :=
  inferInstanceAs (Decidable (_ ∨ _))

theorem Insn.PairForm.route {store : Bool} {d : BitVec 64} (hform : w.PairForm store d)
    (g : Guest) :
    ∃ route, Route.find? w = some route ∧ route.family = .loadStore ∧
      (route.Closed g ↔ g.lacksPair store) ∧ w.opcode ≠ 21 ∧ w.opcode ≠ 30 := by
  unfold Guest.lacksPair
  cases hform with
  | lq hopcode =>
      refine ⟨⟨.any, [.mode64], .loadStore⟩, ?_, rfl, ?_, by omega⟩
      · exact Route.find?_only (by rw [hopcode]; rfl)
      · rw [Route.closed_mode64]
        simp
  | stq hopcode hxo =>
      refine ⟨⟨.xo2 [2], [.mode64, .isa207], .loadStore⟩, ?_, rfl, ?_, by omega⟩
      · rw [Route.find?, hopcode, Route.ofOpcode_62]
        simp [Pattern.accepts, hxo]
      · rw [Route.closed_iff]
        simp only [List.mem_cons, List.not_mem_nil, or_false, exists_eq_or_imp, exists_eq_left,
          Gate.mode64_closed, true_and]
        rfl

/-- Every load or store of integers transfers its bytes at its effective address, extends or cuts
them to its register, and updates the base register if it is of that kind. -/
theorem Guest.integers_move (g : Guest) (hI : I.Scalar) {view : M → ByteMemory}
    (hview : I.Bytewise view) :
    (∀ {x : LoadStore.Move} {o : LoadStore.Offset}, w.MoveForm x o →
      g.Performs w I (o.Reserved w ∨ (x.Wide ∧ g.arch = .ppc32) ∨ x.Clashes w)
        fun cia next m out => next = .continue ∧ x.Done (g.env cia cia) I view w
          (o.address g.arch I.order w x.update m.state) m.memory m.state out) ∧
    (∀ {store : Bool} {d : BitVec 64}, w.PairForm store d →
      g.Performs w I (g.lacksPair store ∨ w.rd % 2 ≠ 0 ∨
          (store = false ∧ (w.slice 28 4 ≠ 0 ∨ w.rd = w.ra)))
        fun cia next m out => next = .continue ∧ LoadStore.PairDone store (g.env cia cia) I view w
          ((LoadStore.Offset.disp d).address g.arch I.order w false m.state) m.memory m.state
          out) := by
  refine ⟨fun {x o} hform => ?_, fun {store d} hform => ?_⟩
  · obtain ⟨route, hroute, hfamily, hclosed, hopcode⟩ := hform.route g
    refine Guest.performs hroute hopcode
      (o.Reserved w ∨ (x.Wide ∧ g.arch = .ppc32) ∨ x.Clashes w)
      (or_iff_right_of_imp fun h => .inr (.inl (hclosed h))) fun env c hlayout henv hnext => ?_
    obtain ⟨cia, blockStart, rfl⟩ := henv
    rw [hfamily]
    exact (LoadStore.lift_comes hI hview hlayout hnext hform).mono Iff.rfl fun _ _ h =>
      ⟨h.1, h.2.pc, h.2.kind, h.2.bytes, h.2.loads, h.2.state⟩
  · obtain ⟨route, hroute, hfamily, hclosed, hopcode⟩ := hform.route g
    refine Guest.performs hroute hopcode
      (g.arch = .ppc32 ∨ w.rd % 2 ≠ 0 ∨ (store = false ∧ (w.slice 28 4 ≠ 0 ∨ w.rd = w.ra)))
      (by rw [hclosed, ← or_assoc, or_iff_left_of_imp (show g.arch = .ppc32 → _ from .inl)])
      fun env c hlayout henv hnext => ?_
    obtain ⟨cia, blockStart, rfl⟩ := henv
    rw [hfamily]
    exact (LoadStore.liftPair_comes hI.toModular hview hlayout hnext hform).mono Iff.rfl
      fun _ _ h => ⟨h.1, h.2.pc, h.2.kind, h.2.bytes, h.2.loads, h.2.state⟩

/-- A machine whose general register 4 is 0x1002, with the bytes 0x80 and 0x01 at 0x1000. -/
def addressing : Machine Interp.Reserved :=
  .start ⟨fun a => if a = 0x1000 then 0x80 else if a = 0x1001 then 1 else 0, false⟩
    fun o => if o = 38 then 0x10 else if o = 39 then 2 else 0

/-- The code of `lhau r3,-2(r4)` loads a negative halfword, and that of `lq r6,-16(r4)` a pair that
ends before it. -/
theorem Guest.integers_move_words :
    (∃ ss, (Guest.lift { arch := .ppc64, host := .big } ⟨#[0xAC, 0x64, 0xFF, 0xFE]⟩ 0 0x2000 0x2000
        (.empty 0)).block.stmts.toList = ss ∧
      (Guest.env { arch := .ppc64, host := .big } 0x2000 0x2000).leave (.scalar .big) .continue
        (runAll (.scalar .big) #[] ss addressing) =
          ⟨0x2004, .boring, addressing.memory,
            (addressing.state.withOperand .ppc64 .big 3 0xFFFFFFFFFFFF8001).withOperand .ppc64 .big
              4 0x1000⟩) ∧
    (∃ ss, (Guest.lift { arch := .ppc64, host := .big } ⟨#[0xE0, 0xC4, 0xFF, 0xF0]⟩ 0 0x2000 0x2000
        (.empty 0)).block.stmts.toList = ss ∧
      (Guest.env { arch := .ppc64, host := .big } 0x2000 0x2000).leave (.scalar .big) .continue
        (runAll (.scalar .big) #[] ss addressing) =
          ⟨0x2004, .boring, addressing.memory,
            (addressing.state.withOperand .ppc64 .big 6 0).withOperand .ppc64 .big 7 0x8001⟩) := by
  constructor
  · have hperforms := (Guest.integers_move { arch := .ppc64, host := .big } (w := ⟨0xAC64FFFE⟩)
      (Interp.scalar_scalar .big) (Interp.scalar_bytewise .big)).1
        (.immediate (k := 11) (by decide) rfl)
    obtain ⟨next, ss, -, hstmts, rfl, hdone⟩ :=
      hperforms.exists_run (by decide) ⟨#[0xAC, 0x64, 0xFF, 0xFE]⟩ (by decide) (by decide) 0x2000
        addressing
    refine ⟨ss, hstmts, (hdone.eq_of_load rfl).trans ?_⟩
    have haddress : LoadStore.Offset.address .ppc64 .big ⟨0xAC64FFFE⟩ true addressing.state
        (.disp ((BitVec.setWidth 16 0xAC64FFFE#32).signExtend 64)) = 0x1000 := by decide +kernel
    have hloaded : LoadStore.Move.loaded { width := .w16, signed := true, update := true }
        (Guest.env { arch := .ppc64, host := .big } 0x2000 0x2000) 0x1000
        addressing.memory.bytes = 0xFFFFFFFFFFFF8001 := by decide +kernel
    refine (congrArg (fun a => (⟨0x2004, .boring, addressing.memory,
      LoadStore.Move.stateAfter { width := .w16, signed := true, update := true }
        (Guest.env { arch := .ppc64, host := .big } 0x2000 0x2000) .big ⟨0xAC64FFFE⟩ a
        addressing.memory.bytes addressing.state⟩ : Left Interp.Reserved)) haddress).trans ?_
    exact congrArg (fun v => (⟨0x2004, .boring, addressing.memory,
      (addressing.state.withOperand .ppc64 .big 3 v).withOperand .ppc64 .big 4 0x1000⟩ :
        Left Interp.Reserved)) hloaded
  · have hperforms := (Guest.integers_move { arch := .ppc64, host := .big } (w := ⟨0xE0C4FFF0⟩)
      (Interp.scalar_scalar .big) (Interp.scalar_bytewise .big)).2 (.lq (by decide))
    obtain ⟨next, ss, -, hstmts, rfl, hdone⟩ :=
      hperforms.exists_run (by decide) ⟨#[0xE0, 0xC4, 0xFF, 0xF0]⟩ (by decide) (by decide) 0x2000
        addressing
    refine ⟨ss, hstmts, hdone.eq_of_load.trans ?_⟩
    have haddress : LoadStore.Offset.address .ppc64 .big ⟨0xE0C4FFF0⟩ false addressing.state
        (.disp ((BitVec.extractLsb' 4 12 0xE0C4FFF0#32 ++ 0#4).signExtend 64)) = 0xFF2 := by
      decide +kernel
    have hread : addressing.memory.bytes.read .big ((0xFF2 : BitVec 64).setWidth 64) .i128 =
        0x8001 := by decide +kernel
    refine (congrArg (fun a : BitVec 64 => (⟨0x2004, .boring, addressing.memory,
      LoadStore.withPair .ppc64 .big ⟨0xE0C4FFF0⟩ addressing.state
        (addressing.memory.bytes.read .big (a.setWidth 64) .i128)⟩ : Left Interp.Reserved))
          haddress).trans ?_
    have hhigh : ((0x8001 : BitVec 128).extractLsb' 64 64).setWidth 64 = 0 := by decide
    have hlow : ((0x8001 : BitVec 128).extractLsb' 0 64).setWidth 64 = 0x8001 := by decide
    refine (congrArg (fun x => (⟨0x2004, .boring, addressing.memory,
      LoadStore.withPair .ppc64 .big ⟨0xE0C4FFF0⟩ addressing.state x⟩ : Left Interp.Reserved))
        hread).trans ?_
    exact congrArg₂ (fun x y => (⟨0x2004, .boring, addressing.memory,
      (addressing.state.withOperand .ppc64 .big 6 x).withOperand .ppc64 .big 7 y⟩ :
        Left Interp.Reserved)) hhigh hlow

end PowerLift
