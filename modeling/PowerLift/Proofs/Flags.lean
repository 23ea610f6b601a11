import PowerLift.Proofs.Memory

/-!
# Overflow, carry and comparison results

A flag rule applies at the widths at which its instructions exist; there its conditions are typed.
-/

namespace PowerLift

open Stage (Next Before)

variable {P : Placement} {s : Stage} {pending : List Nat}

namespace FlagRule

/-- The widths at which a rule has an overflow condition. -/
def OverflowsAt (rule : FlagRule) (w : Word) : Prop :=
  match rule with
  | .mulLw => w = .w32
  | .mulLd => w = .w64
  | .subfI | .sraw | .srawi | .srad | .sradi => False
  | _ => True

/-- The rules that have a carry condition. -/
def Carries : FlagRule → Prop
  | .add | .addE | .subf | .subfC | .subfI | .subfE | .sraw | .srad | .srawi | .sradi => True
  | _ => False

theorem widthOf_ty (w : Word) : widthOf w.ty = .ok w := by cases w <;> rfl

variable {w : Word} {a a' b b' c c' : Expr}

theorem lit_paired {v : BitVec 64} : Paired P s (lit w v) (lit w v) w.ty := by
  cases w
  · exact .u32
  · exact .u64

theorem isNegative_paired (ha : Paired P s a a' w.ty) :
    Paired P s (isNegative w a) (isNegative w a') .i1 :=
  .bin rfl (.bin rfl ha .u8) lit_paired

theorem equal_paired (ha : Paired P s a a' w.ty) (hb : Paired P s b b' w.ty) :
    Paired P s (equal w a b) (equal w a' b') .i1 :=
  .bin rfl ha hb

theorem unequal_paired (ha : Paired P s a a' w.ty) (hb : Paired P s b b' w.ty) :
    Paired P s (unequal w a b) (unequal w a' b') .i1 :=
  .bin rfl ha hb

/-- The overflow condition of a rule is a truth value. -/
theorem overflow_paired {rule : FlagRule} (hrule : rule.OverflowsAt w) (ha : Paired P s a a' w.ty)
    (hb : Paired P s b b' w.ty) (hc : Paired P s c c' w.ty) :
    ∃ e e', rule.overflow w.ty a b c = .ok e ∧ rule.overflow w.ty a' b' c' = .ok e' ∧
      Paired P s e e' .i1 := by
  have hnot : Paired P s (.un (.not w.width) b) (.un (.not w.width) b') w.ty := .un rfl hb
  unfold overflow
  rw [widthOf_ty]
  cases rule with
  | add | addE =>
      exact ⟨_, _, rfl, rfl, isNegative_paired (.bin rfl (.bin rfl (.bin rfl hb hc) lit_paired)
        (.bin rfl hb ha))⟩
  | subf | subfC | subfE =>
      exact ⟨_, _, rfl, rfl, isNegative_paired (.bin rfl (.bin rfl (.bin rfl hnot hc) lit_paired)
        (.bin rfl hnot ha))⟩
  | neg => exact ⟨_, _, rfl, rfl, equal_paired hb lit_paired⟩
  | mulLw =>
      obtain rfl : w = .w32 := hrule
      exact ⟨_, _, rfl, rfl, .bin rfl (.un rfl (.bin rfl hb hc))
        (.bin rfl (.un rfl (.bin rfl hb hc)) .u8)⟩
  | mulLd =>
      obtain rfl : w = .w64 := hrule
      exact ⟨_, _, rfl, rfl, .bin rfl (.un rfl (.bin rfl hb hc))
        (.bin rfl (.un rfl (.bin rfl hb hc)) .u8)⟩
  | divW | divD =>
      exact ⟨_, _, rfl, rfl, .bin rfl (equal_paired hc lit_paired)
        (.bin rfl (equal_paired hb lit_paired) (equal_paired hc lit_paired))⟩
  | divWU | divDU => exact ⟨_, _, rfl, rfl, equal_paired hc lit_paired⟩
  | divWEU | divDEU =>
      exact ⟨_, _, rfl, rfl, .bin rfl (equal_paired hc lit_paired) (.bin rfl hc hb)⟩
  | divWE | divDE =>
      exact ⟨_, _, rfl, rfl, .bin rfl (.bin rfl (equal_paired ha lit_paired)
        (.bin rfl (unequal_paired hb lit_paired) (unequal_paired hc lit_paired)))
        (equal_paired hc lit_paired)⟩
  | subfI | sraw | srawi | srad | sradi => exact False.elim hrule

/-- The low byte of a shift amount, and the test on the bits that the shift drops. -/
theorem dropsOne_paired (ha : Paired P s a a' w.ty) (hb : Paired P s b b' w.ty) :
    Paired P s (dropsOne w a b) (dropsOne w a' b') .i1 := by
  cases w <;>
    exact unequal_paired (.bin rfl (.bin rfl ha .u8) (.bin rfl ha
      (.bin rfl (.bin rfl lit_paired (.un rfl hb)) lit_paired))) lit_paired

/-- The carry condition of a rule is a truth value. -/
theorem carry_paired {rule : FlagRule} {d d' : Expr} (hrule : rule.Carries)
    (ha : Paired P s a a' w.ty) (hb : Paired P s b b' w.ty) (hc : Paired P s c c' w.ty)
    (hd : Paired P s d d' w.ty) :
    ∃ e e', rule.carry w.ty a b c d = .ok e ∧ rule.carry w.ty a' b' c' d' = .ok e' ∧
      Paired P s e e' .i1 := by
  unfold carry
  rw [widthOf_ty]
  cases rule with
  | add => exact ⟨_, _, rfl, rfl, .bin rfl ha hb⟩
  | addE =>
      exact ⟨_, _, rfl, rfl, .bin rfl (.bin rfl ha hb)
        (.bin rfl (equal_paired hd lit_paired) (equal_paired ha hb))⟩
  | subfE =>
      exact ⟨_, _, rfl, rfl, .bin rfl (.bin rfl ha hc)
        (.bin rfl (equal_paired hd lit_paired) (equal_paired ha hc))⟩
  | subf | subfC | subfI => exact ⟨_, _, rfl, rfl, .bin rfl ha hc⟩
  | sraw | srad =>
      exact ⟨_, _, rfl, rfl, .ite (.bin rfl lit_paired hc) (.bin rfl hb lit_paired)
        (dropsOne_paired hb hc)⟩
  | srawi | sradi => exact ⟨_, _, rfl, rfl, dropsOne_paired hb hc⟩
  | neg | mulLw | mulLd | divW | divWU | divD | divDU | divWE | divWEU | divDE | divDEU =>
      exact False.elim hrule

end FlagRule

namespace Lift

variable {w : Word} {rule : FlagRule} {a a' b b' c c' d d' : Expr}

theorem setOverflow_emits (hrule : rule.OverflowsAt w) (ha : Paired P s a a' w.ty)
    (hb : Paired P s b b' w.ty) (hc : Paired P s c c' w.ty) :
    Emits P s pending (setOverflow rule a b c) (setOverflow rule a' b' c') := by
  obtain ⟨e, e', he, he', hpaired⟩ := FlagRule.overflow_paired hrule ha hb hc
  unfold setOverflow
  refine .give (typeOf_gives ha) (.give (ofExcept_gives he he') ?_)
  refine .bind (bind_computes (.un rfl hpaired)) fun _ _ _ _ hov => ?_
  refine .seq (putXerOv_emits hov) fun _ _ => ?_
  refine .give (getSpecial_gives.give (.pure ⟨rfl, rfl⟩)) ?_
  refine (putXerSo_emits (.bin rfl (.bin rfl (get_paired (by decide) rfl) .u8) hov.up) ?_).last
  exact fun _ => .or (.and 1 (by decide) .self)

theorem setCarry_emits (hrule : rule.Carries) (ha : Paired P s a a' w.ty)
    (hb : Paired P s b b' w.ty) (hc : Paired P s c c' w.ty) (hd : Paired P s d d' w.ty) :
    Emits P s pending (setCarry rule a b c d) (setCarry rule a' b' c' d') := by
  obtain ⟨e, e', he, he', hpaired⟩ := FlagRule.carry_paired hrule ha hb hc hd
  unfold setCarry
  refine .give (typeOf_gives ha) (.give (ofExcept_gives he he') ?_)
  exact putXerCa_emits (.un rfl hpaired)

/-- The summary overflow, as an expression. -/
theorem xerSo_paired : Paired P s (.bin .and8 (.get (Layout.specialOffset P.env.layout .xerSo) .i8)
    (.u8 1)) (.bin .and8 (.get (Layout.specialOffset P.env.layout .xerSo) .i8) (.u8 1)) .i8 := by
  rw [P.layout_eq]
  exact .bin rfl (get_paired (by decide) rfl) .u8

theorem setCrOrdering_emits {f : Nat} (hf : f < 8) (ha : Paired P s a a' .i8)
    (hmask : Bounded P s a 0xE) : Emits P s pending (setCrOrdering f a) (setCrOrdering f a') :=
  putField_emits hf ha hmask xerSo_paired (.andRight (.u8 1)) (fun _ => rfl) fun _ => rfl

theorem recordResult_emits (ha : Paired P s a a' w.ty) :
    Emits P s pending (recordResult a) (recordResult a') := by
  unfold recordResult
  refine .give (typeOf_gives ha) ?_
  cases w
  · exact setCrOrdering_emits (by decide) (.un rfl (.bin rfl ha .u32)) (.cast rfl .order)
  · exact setCrOrdering_emits (by decide) (.un rfl (.bin rfl ha .u64)) (.cast rfl .order)

theorem setCrFromOrder_emits {f : Nat} (hf : f < 8) (ha : Paired P s a a' w.ty)
    (hmask : Bounded P s a 0xE) : Emits P s pending (setCrFromOrder f a) (setCrFromOrder f a') := by
  unfold setCrFromOrder
  refine .give (typeOf_gives ha) ?_
  cases w <;> exact setCrOrdering_emits hf (.un rfl ha) (.cast rfl hmask)

/-- A truth value moved to a bit of a byte. -/
theorem bit_bounded {e : Expr} (k : BitVec 8) (hk : k.toNat < 8) :
    Bounded P s (.bin (.shl .w8) (.un (.cast .zext1to8) e) (.u8 k)) (1 <<< k.toNat) :=
  .shl k hk (.truth rfl rfl)

theorem recordLanes_emits {testAll : Bool} (ha : Paired P s a a' .v128) :
    Emits P s pending (recordLanes a testAll) (recordLanes a' testAll) := by
  unfold recordLanes
  refine .bind (splitHalves_kept ha) fun ⟨hi, lo⟩ ⟨hi', lo'⟩ s₁ _ ⟨hhi, hlo⟩ => ?_
  refine (putFields_emits (by decide) ?_ ?_ .u8 .zero).last
  · cases testAll
    · exact .bin rfl (.un rfl (.bin rfl (.bin rfl hhi hlo) .u64)) .u8
    · exact .bin rfl (.bin rfl (.un rfl (.bin rfl (.bin rfl hhi hlo) .u64)) .u8)
        (.bin rfl (.un rfl (.bin rfl (.bin rfl hhi hlo) .u64)) .u8)
  · cases testAll
    · exact .weaken (bit_bounded 1 (by decide)) (by decide)
    · exact .weaken (.or (bit_bounded 1 (by decide)) (bit_bounded 3 (by decide))) (by decide)

theorem recordFloat_emits : Emits P s pending recordFloat recordFloat :=
  putFields_emits (by decide) .u8 .zero .u8 .zero

end Lift

end PowerLift
