import Mathlib.Data.Nat.Digits.Defs
import PowerLift.Proofs.Lexing
import PowerLift.Text.Numeral

/-!
# Texts of addresses

An address is spelled in base ten, or in base sixteen behind a mark. A plus sign may stand in front
of the digits, and zeros may lead them. The texts that are read as addresses are just the spellings
of numbers below `2 ^ 64`, and no text spells an address in two ways.
-/

namespace PowerLift.Address

/-- The base of a spelling, with the mark that tells it. -/
inductive Radix where
  | decimal
  | lowerHex
  | upperHex
  deriving DecidableEq, Repr

namespace Radix

def base : Radix → Nat
  | decimal => 10
  | lowerHex | upperHex => 16

/-- What stands in front of everything else. -/
def mark : Radix → List Char
  | decimal => []
  | lowerHex => ['0', 'x']
  | upperHex => ['0', 'X']

/-- The characters that are digits. -/
def numerals : Radix → List Char
  | decimal => ['0', '1', '2', '3', '4', '5', '6', '7', '8', '9']
  | lowerHex | upperHex => ['0', '1', '2', '3', '4', '5', '6', '7', '8', '9', 'a', 'b', 'c', 'd',
      'e', 'f', 'A', 'B', 'C', 'D', 'E', 'F']

end Radix

/-- The number that a digit of either case stands for. -/
def numeral (c : Char) : Nat :=
  ['0', '1', '2', '3', '4', '5', '6', '7', '8', '9', 'a', 'b', 'c', 'd', 'e', 'f'].idxOf c.toLower

/-- A plus sign that may be left out. -/
def sign (plus : Bool) : List Char := if plus then ['+'] else []

/-- A way to write an address. -/
structure Spelling where
  radix : Radix
  plus : Bool
  digits : List Char
  ne_nil : digits ≠ []
  mem_numerals : ∀ c ∈ digits, c ∈ radix.numerals

namespace Spelling

/-- The characters of a spelling, in order. -/
def chars (w : Spelling) : List Char := w.radix.mark ++ (sign w.plus ++ w.digits)

def text (w : Spelling) : String := String.ofList w.chars

/-- The number that a spelling denotes. -/
def number (w : Spelling) : Nat := Nat.ofDigits w.radix.base (w.digits.map numeral).reverse

end Spelling

/-! ## Digits -/

variable {radix : Radix} {c : Char} {cs : List Char} {n acc bound : Nat} {beyond : NumeralError}

theorem digit?_of_mem (hc : c ∈ radix.numerals) :
    Numeral.digit? radix.base c = some (numeral c) := by
  have hall : radix.numerals.all fun c => Numeral.digit? radix.base c = some (numeral c) := by
    cases radix <;> decide
  exact of_decide_eq_true (List.all_eq_true.mp hall c hc)

/-- No digit comes behind the last small letter of base sixteen. -/
theorem le_of_hexDigitValue? {d : Nat} (h : Text.hexDigitValue? c = some d) : c ≤ 'f' := by
  unfold Text.hexDigitValue? at h
  split at h
  next hdigit => exact Char.le_trans hdigit.2 (by decide)
  next =>
    split at h
    next hletter => exact hletter.2
    next =>
      split at h
      next hletter => exact Char.le_trans hletter.2 (by decide)
      next => cases h

theorem mem_of_digit? {d : Nat} (h : Numeral.digit? radix.base c = some d) :
    c ∈ radix.numerals := by
  have hall : ∀ k ≤ 'f'.toNat, Numeral.digit? radix.base (Char.ofNat k) ≠ none →
      Char.ofNat k ∈ radix.numerals := by
    cases radix <;> decide
  have hle : c.toNat ≤ 'f'.toNat := le_of_hexDigitValue? (Option.filter_eq_some_iff.mp h).1
  have hmem := hall c.toNat hle
  rw [Char.ofNat_toNat, h] at hmem
  exact hmem (Option.some_ne_none d)

/-- The value of digits behind those that have the value `acc`. -/
def accumulate (base acc : Nat) (cs : List Char) : Nat :=
  cs.foldl (fun n c => n * base + Text.digitValue c) acc

theorem le_accumulate (radix : Radix) (acc : Nat) (cs : List Char) :
    acc ≤ accumulate radix.base acc cs := by
  induction cs generalizing acc with
  | nil => exact Nat.le_refl acc
  | cons c cs ih =>
      have hbase : 0 < radix.base := by cases radix <;> decide
      calc acc ≤ acc * radix.base := Nat.le_mul_of_pos_right acc hbase
        _ ≤ acc * radix.base + Text.digitValue c := Nat.le_add_right _ _
        _ ≤ accumulate radix.base acc (c :: cs) := ih _

theorem digitValue_eq (hc : c ∈ radix.numerals) : Text.digitValue c = numeral c := by
  rw [Text.digitValue, (Option.filter_eq_some_iff.mp (digit?_of_mem hc)).1, Option.getD_some]

theorem value_eq_ofDigits (hcs : ∀ c ∈ cs, c ∈ radix.numerals) :
    Text.value radix.base cs = Nat.ofDigits radix.base (cs.map numeral).reverse := by
  have hmap : cs.map Text.digitValue = cs.map numeral :=
    List.map_congr_left fun c hc => digitValue_eq (hcs c hc)
  rw [← hmap, Nat.ofDigits_eq_foldr, List.foldr_reverse, List.foldl_map, Text.value]
  simp [Nat.mul_comm, Nat.add_comm]

/-- Digits are read to their value, unless it is beyond the bound. -/
theorem digits_eq_ok (hacc : acc ≤ bound) :
    Numeral.digits radix.base bound beyond acc cs = .ok n ↔
      (∀ c ∈ cs, c ∈ radix.numerals) ∧ accumulate radix.base acc cs = n ∧ n ≤ bound := by
  induction cs generalizing acc with
  | nil =>
      simp only [Numeral.digits, Except.ok.injEq, accumulate, List.foldl_nil]
      exact ⟨fun h => ⟨by simp, h, h ▸ hacc⟩, fun h => h.2.1⟩
  | cons c cs ih =>
      rw [Numeral.digits, List.forall_mem_cons]
      cases hdigit : Numeral.digit? radix.base c with
      | none =>
          refine ⟨nofun, fun h => ?_⟩
          rw [digit?_of_mem h.1.1] at hdigit
          cases hdigit
      | some d =>
          have hc : c ∈ radix.numerals := mem_of_digit? hdigit
          obtain rfl : Text.digitValue c = d := by
            rw [digitValue_eq hc]
            exact Option.some.inj ((digit?_of_mem hc).symm.trans hdigit)
          have hstep : accumulate radix.base acc (c :: cs) =
              accumulate radix.base (acc * radix.base + Text.digitValue c) cs := rfl
          have hle := le_accumulate radix (acc * radix.base + Text.digitValue c) cs
          simp only [hstep]
          split
          next hbeyond => exact ⟨nofun, fun h => absurd h.2.2 (by omega)⟩
          next hwithin =>
            rw [ih (Nat.not_lt.mp hwithin)]
            exact ⟨fun h => ⟨⟨hc, h.1⟩, h.2⟩, fun h => ⟨h.1.2, h.2⟩⟩

theorem plus_not_mem (radix : Radix) : '+' ∉ radix.numerals := by cases radix <;> decide

/-- Behind a sign that may be left out, at least one digit is read. -/
theorem unsigned_eq_ok : Numeral.unsigned radix.base bound cs = .ok n ↔
    ∃ plus digits, digits ≠ [] ∧ (∀ c ∈ digits, c ∈ radix.numerals) ∧
      sign plus ++ digits = cs ∧ Text.value radix.base digits = n ∧ n ≤ bound := by
  constructor
  · intro h
    unfold Numeral.unsigned at h
    split at h
    next => cases h
    next => cases h
    next rest hrest =>
      obtain ⟨hmem, hvalue⟩ := (digits_eq_ok (Nat.zero_le bound)).mp h
      exact ⟨true, rest, hrest, hmem, rfl, hvalue⟩
    next hne _ _ =>
      obtain ⟨hmem, hvalue⟩ := (digits_eq_ok (Nat.zero_le bound)).mp h
      exact ⟨false, cs, hne, hmem, rfl, hvalue⟩
  · rintro ⟨plus, digits, hne, hmem, rfl, hvalue⟩
    have hread : Numeral.digits radix.base bound .tooLarge 0 digits = .ok n :=
      (digits_eq_ok (Nat.zero_le bound)).mpr ⟨hmem, hvalue⟩
    obtain ⟨d, ds, rfl⟩ := List.exists_cons_of_ne_nil hne
    cases plus with
    | true => exact hread
    | false =>
        have hd : d ≠ '+' := fun heq => plus_not_mem radix (heq ▸ hmem d List.mem_cons_self)
        unfold Numeral.unsigned
        split
        next heq => cases heq
        next heq => exact absurd (List.cons.inj heq).1 hd
        next heq => exact absurd (List.cons.inj heq).1 hd
        next => exact hread

/-! ## Spellings -/

/-- Where digits are decimal, nothing looks like the mark of base sixteen. -/
theorem ne_marked {plus : Bool} {x : Char} {rest : List Char}
    (hmem : ∀ c ∈ cs, c ∈ Radix.decimal.numerals) (hx : x ∉ Radix.decimal.numerals) :
    sign plus ++ cs ≠ '0' :: x :: rest := by
  cases plus with
  | true => exact fun h => absurd (List.cons.inj h).1 (by decide)
  | false =>
      rintro rfl
      exact hx (hmem x (by simp))

/-- The characters of a spelling are read to its number. -/
theorem value_eq_ok : value cs = .ok n ↔
    ∃ w : Spelling, w.chars = cs ∧ w.number = n ∧ n < 2 ^ 64 := by
  constructor
  · intro h
    obtain ⟨radix, rest, hcs, h⟩ : ∃ radix : Radix, ∃ rest, radix.mark ++ rest = cs ∧
        Numeral.unsigned radix.base (UInt64.size - 1) rest = .ok n := by
      unfold value at h
      split at h
      next rest => exact ⟨.lowerHex, rest, rfl, h⟩
      next rest => exact ⟨.upperHex, rest, rfl, h⟩
      next => exact ⟨.decimal, cs, rfl, h⟩
    obtain ⟨plus, digits, hne, hmem, rfl, hvalue, hle⟩ := unsigned_eq_ok.mp h
    refine ⟨⟨radix, plus, digits, hne, hmem⟩, hcs, ?_, Nat.lt_of_le_sub_one (by decide) hle⟩
    exact (value_eq_ofDigits hmem).symm.trans hvalue
  · rintro ⟨w, rfl, rfl, hlt⟩
    have h : Numeral.unsigned w.radix.base (UInt64.size - 1) (sign w.plus ++ w.digits) =
        .ok w.number :=
      unsigned_eq_ok.mpr ⟨w.plus, w.digits, w.ne_nil, w.mem_numerals, rfl,
        value_eq_ofDigits w.mem_numerals, Nat.le_sub_one_of_lt hlt⟩
    obtain ⟨radix, plus, digits, hne, hmem⟩ := w
    cases radix with
    | lowerHex | upperHex => exact h
    | decimal =>
        unfold value
        split
        next heq => exact absurd heq (ne_marked hmem (by decide))
        next heq => exact absurd heq (ne_marked hmem (by decide))
        next => exact h

/-- The characters of a spelling tell its parts. -/
theorem Spelling.chars_injective : Function.Injective chars := by
  rintro ⟨radix, plus, digits, hne, hmem⟩ ⟨radix', plus', digits', hne', hother⟩ h
  obtain rfl : radix = radix' := by
    cases radix <;> cases radix' <;> first
      | rfl
      | exact absurd h (ne_marked hmem (by decide))
      | exact absurd h.symm (ne_marked hother (by decide))
      | simp [chars, Radix.mark] at h
  have hrest : sign plus ++ digits = sign plus' ++ digits' := List.append_cancel_left h
  cases plus <;> cases plus'
  · obtain rfl : digits = digits' := hrest
    rfl
  · obtain rfl : digits = '+' :: digits' := hrest
    exact absurd (hmem '+' List.mem_cons_self) (plus_not_mem radix)
  · obtain rfl : '+' :: digits = digits' := hrest
    exact absurd (hother '+' List.mem_cons_self) (plus_not_mem radix)
  · obtain rfl : digits = digits' := (List.cons.inj hrest).2
    rfl

/-- Reading and spelling. -/
theorem parse_eq_ok {s : String} {v : BitVec 64} : parse s = .ok v ↔
    ∃ w : Spelling, w.text = s ∧ w.number = v.toNat := by
  unfold parse
  constructor
  · intro h
    split at h
    next n hvalue =>
      obtain ⟨w, hchars, rfl, hlt⟩ := value_eq_ok.mp hvalue
      obtain rfl := Except.ok.inj h
      refine ⟨w, by rw [Spelling.text, hchars, String.ofList_toList], ?_⟩
      rw [BitVec.toNat_ofNat, Nat.mod_eq_of_lt hlt]
    next => cases h
  · rintro ⟨w, rfl, hnumber⟩
    have hvalue : value w.text.toList = .ok v.toNat :=
      value_eq_ok.mpr ⟨w, String.toList_ofList.symm, hnumber, v.isLt⟩
    simp [hvalue]

theorem one_lt_base (radix : Radix) : 1 < radix.base := by cases radix <;> decide

theorem base_le (radix : Radix) : radix.base ≤ 16 := by cases radix <;> decide

theorem digitChar_mem (radix : Radix) : ∀ d < radix.base, d.digitChar ∈ radix.numerals := by
  cases radix <;> decide

/-- The spelling of a number without a sign and without leading zeros. -/
def Spelling.ofNat (radix : Radix) (n : Nat) : Spelling where
  radix := radix
  plus := false
  digits := Nat.toDigits radix.base n
  ne_nil := Nat.toDigits_ne_nil
  mem_numerals := Text.forall_toDigits (one_lt_base radix) (digitChar_mem radix) n

theorem Spelling.number_ofNat (radix : Radix) (n : Nat) : (ofNat radix n).number = n :=
  calc (ofNat radix n).number = Text.value radix.base (Nat.toDigits radix.base n) :=
        (value_eq_ofDigits (ofNat radix n).mem_numerals).symm
    _ = n := Text.value_toDigits (one_lt_base radix) (base_le radix) n

/-- The texts that are read as addresses are the spellings of numbers of 64 bits. Each text has one
spelling, and what is written in base sixteen or ten is read back. -/
theorem parse_accepts :
    (∀ (s : String) (v : BitVec 64),
      parse s = .ok v ↔ ∃ w : Spelling, w.text = s ∧ w.number = v.toNat) ∧
    Function.Injective Spelling.text ∧
    ∀ v : BitVec 64, parse (Text.hex v.toNat) = .ok v ∧ parse v.toNat.repr = .ok v := by
  refine ⟨fun _ _ => parse_eq_ok, fun w w' h => ?_, fun v => ⟨?_, ?_⟩⟩
  · exact Spelling.chars_injective (String.ofList_injective h)
  · refine parse_eq_ok.mpr ⟨.ofNat .lowerHex v.toNat, ?_, Spelling.number_ofNat _ _⟩
    exact String.toList_injective (String.toList_ofList.trans (Text.toList_hex v.toNat).symm)
  · refine parse_eq_ok.mpr ⟨.ofNat .decimal v.toNat, ?_, Spelling.number_ofNat _ _⟩
    exact Nat.repr_eq_ofList_toDigits.symm

end PowerLift.Address
