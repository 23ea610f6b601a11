import PowerLift.Text.Listing

/-!
# Words and marks

A listing is a row of words, which are made of letters, digits and underscores, and of marks, which
are single other characters. Where no word follows another directly, the text determines the row.
-/

namespace PowerLift

namespace Text

/-- The characters that words are made of. -/
def isWordChar (c : Char) : Bool := c.isAlphanum || c == '_'

/-- Texts that are one word. -/
structure IsWord (w : String) : Prop where
  ne_nil : w.toList ≠ []
  chars : ∀ c ∈ w.toList, isWordChar c = true

-- Said with `all`, so that a check looks at the characters of the text and not at all there are.
theorem isWord_iff {w : String} : IsWord w ↔ w.toList ≠ [] ∧ w.toList.all isWordChar = true :=
  ⟨fun h => ⟨h.ne_nil, List.all_eq_true.mpr h.chars⟩,
    fun h => ⟨h.1, List.all_eq_true.mp h.2⟩⟩

instance (w : String) : Decidable (IsWord w) := decidable_of_iff' _ isWord_iff

/-- A part of a listing. -/
inductive Token where
  | word (w : String)
  | mark (c : Char)
  deriving DecidableEq

namespace Token

def chars : Token → List Char
  | word w => w.toList
  | mark c => [c]

/-- Whether a row starts with a word. -/
def opensWord : List Token → Bool
  | word _ :: _ => true
  | _ => false

@[simp] theorem opensWord_nil : opensWord [] = false := rfl

@[simp] theorem opensWord_word (w : String) (ts : List Token) : opensWord (word w :: ts) = true :=
  rfl

@[simp] theorem opensWord_mark (c : Char) (ts : List Token) : opensWord (mark c :: ts) = false :=
  rfl

/-- Rows in which no word directly follows another. -/
def Spaced : List Token → Prop
  | [] => True
  | word w :: ts => IsWord w ∧ opensWord ts = false ∧ Spaced ts
  | mark c :: ts => isWordChar c = false ∧ Spaced ts

end Token

open Token

/-- The text of a row. -/
def spell (ts : List Token) : List Char := ts.flatMap chars

@[simp] theorem spell_nil : spell [] = [] := rfl

@[simp] theorem spell_word (w : String) (ts : List Token) :
    spell (word w :: ts) = w.toList ++ spell ts := rfl

@[simp] theorem spell_mark (c : Char) (ts : List Token) :
    spell (mark c :: ts) = c :: spell ts := rfl

@[simp] theorem spell_append (ts ts' : List Token) :
    spell (ts ++ ts') = spell ts ++ spell ts' := List.flatMap_append

/-! ## Text determines the row -/

/-- A text that no word goes on into. -/
def Ends (cs : List Char) : Prop := ∀ c ∈ cs.head?, isWordChar c = false

theorem Token.Spaced.ends {ts : List Token} (h : Spaced ts) (hopens : opensWord ts = false) :
    Ends (spell ts) := by
  cases ts with
  | nil => simp [Ends]
  | cons t ts =>
      cases t with
      | word w => cases hopens
      | mark c => simpa [Ends] using h.1

/-- A word is what a text starts with, as far as word characters go. -/
theorem takeWhile_word {w : String} (hw : IsWord w) {cs : List Char} (hcs : Ends cs) :
    (w.toList ++ cs).takeWhile isWordChar = w.toList := by
  have htake : cs.takeWhile isWordChar = [] := by
    cases cs with
    | nil => rfl
    | cons c cs => simp [hcs c rfl]
  rw [List.takeWhile_append_of_pos hw.chars, htake, List.append_nil]

theorem word_append_inj {w w' : String} {cs cs' : List Char} (hw : IsWord w) (hw' : IsWord w')
    (hcs : Ends cs) (hcs' : Ends cs') (h : w.toList ++ cs = w'.toList ++ cs') :
    w = w' ∧ cs = cs' := by
  have heq : w.toList = w'.toList := by
    rw [← takeWhile_word hw hcs, h, takeWhile_word hw' hcs']
  rw [heq] at h
  exact ⟨String.toList_inj.mp heq, List.append_cancel_left h⟩

theorem IsWord.exists_cons {w : String} (hw : IsWord w) :
    ∃ c cs, w.toList = c :: cs ∧ isWordChar c = true := by
  obtain ⟨c, cs, heq⟩ := List.exists_cons_of_ne_nil hw.ne_nil
  exact ⟨c, cs, heq, hw.chars c (by simp [heq])⟩

/-- A word does not start with a mark. -/
theorem spell_word_ne_mark {w : String} (hw : IsWord w) {c : Char} (hc : isWordChar c = false)
    (ts ts' : List Token) : spell (word w :: ts) ≠ spell (mark c :: ts') := by
  obtain ⟨c', cs, heq, hc'⟩ := hw.exists_cons
  intro h
  simp only [spell_word, spell_mark, heq, List.cons_append, List.cons.injEq] at h
  rw [h.1, hc] at hc'
  cases hc'

/-- Rows without neighbouring words are equal where their texts are. -/
theorem spell_inj : ∀ {ts ts' : List Token}, Spaced ts → Spaced ts' → spell ts = spell ts' →
    ts = ts'
  | [], [], _, _, _ => rfl
  | [], word w :: _, _, hts', h => by
      obtain ⟨c, cs, heq, -⟩ := hts'.1.exists_cons
      simp [heq] at h
  | word w :: _, [], hts, _, h => by
      obtain ⟨c, cs, heq, -⟩ := hts.1.exists_cons
      simp [heq] at h
  | [], mark _ :: _, _, _, h | mark _ :: _, [], _, _, h => by simp at h
  | word w :: ts, word w' :: ts', hts, hts', h => by
      obtain ⟨rfl, hrest⟩ := word_append_inj hts.1 hts'.1 (hts.2.2.ends hts.2.1)
        (hts'.2.2.ends hts'.2.1) h
      rw [spell_inj hts.2.2 hts'.2.2 hrest]
  | word _ :: _, mark _ :: _, hts, hts', h => absurd h (spell_word_ne_mark hts.1 hts'.1 _ _)
  | mark _ :: _, word _ :: _, hts, hts', h => absurd h.symm (spell_word_ne_mark hts'.1 hts.1 _ _)
  | mark c :: ts, mark c' :: ts', hts, hts', h => by
      simp only [spell_mark, List.cons.injEq] at h
      rw [h.1, spell_inj hts.2 hts'.2 h.2]

/-! ## Numerals -/

/-- The value of a digit. -/
def digitValue (c : Char) : Nat := (hexDigitValue? c).getD 0

/-- The value of a row of digits in a base. -/
def value (base : Nat) (cs : List Char) : Nat :=
  cs.foldl (fun n c => n * base + digitValue c) 0

theorem digitChar_facts : ∀ d < 16,
    digitValue d.digitChar = d ∧ isWordChar d.digitChar = true := by decide

theorem value_append (base : Nat) (cs : List Char) (c : Char) :
    value base (cs ++ [c]) = value base cs * base + digitValue c := by
  simp [value, List.foldl_append]

section

variable {base : Nat} (hlow : 1 < base) (hhigh : base ≤ 16)

include hlow hhigh

theorem value_toDigits (n : Nat) : value base (Nat.toDigits base n) = n := by
  induction n using Nat.strongRecOn with
  | _ n ih =>
      rw [Nat.toDigits_eq_if hlow]
      split
      next hlt => simp [value, (digitChar_facts n (by omega)).1]
      next hge =>
        have hmod : n % base < base := Nat.mod_lt n (by omega)
        have hdiv : n / base < n := Nat.div_lt_self (by omega) hlow
        rw [value_append, ih _ hdiv, (digitChar_facts _ (by omega)).1, Nat.mul_comm]
        exact Nat.div_add_mod n base

omit hhigh in
/-- What holds of all digits holds of those that a number is written with. -/
theorem forall_toDigits {P : Char → Prop} (hP : ∀ d < base, P d.digitChar) (n : Nat) :
    ∀ c ∈ Nat.toDigits base n, P c := by
  induction n using Nat.strongRecOn with
  | _ n ih =>
      rw [Nat.toDigits_eq_if hlow]
      split
      next hlt => simpa using hP n hlt
      next hge =>
        have hmod : n % base < base := Nat.mod_lt n (by omega)
        have hdiv : n / base < n := Nat.div_lt_self (by omega) hlow
        exact List.forall_mem_append.mpr ⟨ih _ hdiv, List.forall_mem_singleton.mpr (hP _ hmod)⟩

theorem isWordChar_toDigits (n : Nat) : ∀ c ∈ Nat.toDigits base n, isWordChar c = true :=
  forall_toDigits hlow (fun d hd => (digitChar_facts d (by omega)).2) n

theorem toDigits_inj {n n' : Nat} (h : Nat.toDigits base n = Nat.toDigits base n') : n = n' := by
  rw [← value_toDigits hlow hhigh n, h, value_toDigits hlow hhigh]

end

theorem toList_temp (t : Nat) : (temp t).toList = 't' :: Nat.toDigits 10 t := by
  simp [temp, toString]

theorem toList_hex (n : Nat) : (hex n).toList = '0' :: 'x' :: Nat.toDigits 16 n := by
  simp [hex, hexDigits]

theorem toList_hexAtLeast (width n : Nat) : (hexAtLeast width n).toList = '0' :: 'x' ::
    (List.replicate (width - (Nat.toDigits 16 n).length) '0' ++ Nat.toDigits 16 n) := by
  simp [hexAtLeast, hexDigits, padLeft]

/-- Zeros in front add nothing. -/
theorem value_replicate (base k : Nat) (cs : List Char) :
    value base (List.replicate k '0' ++ cs) = value base cs := by
  induction k with
  | zero => rfl
  | succ k ih => simpa [value, List.replicate_succ, show digitValue '0' = 0 from by decide] using ih

theorem decimal_inj {n n' : Nat} (h : n.repr = n'.repr) : n = n' := by
  have heq := congrArg String.toList h
  rw [Nat.toList_repr, Nat.toList_repr] at heq
  exact toDigits_inj (by decide) (by decide) heq

theorem temp_inj {t t' : Nat} (h : temp t = temp t') : t = t' := by
  have heq := congrArg String.toList h
  rw [toList_temp, toList_temp, List.cons.injEq] at heq
  exact toDigits_inj (by decide) (by decide) heq.2

theorem hex_inj {n n' : Nat} (h : hex n = hex n') : n = n' := by
  have heq := congrArg String.toList h
  rw [toList_hex, toList_hex, List.cons.injEq, List.cons.injEq] at heq
  exact toDigits_inj (by decide) (by decide) heq.2.2

theorem hexAtLeast_inj {width n n' : Nat} (h : hexAtLeast width n = hexAtLeast width n') :
    n = n' := by
  have heq := congrArg String.toList h
  rw [toList_hexAtLeast, toList_hexAtLeast, List.cons.injEq, List.cons.injEq] at heq
  have hvalue := congrArg (value 16) heq.2.2
  rwa [value_replicate, value_replicate, value_toDigits (by decide) (by decide),
    value_toDigits (by decide) (by decide)] at hvalue

theorem isWord_of_toList {w : String} {cs : List Char} (h : w.toList = cs) (hne : cs ≠ [])
    (hcs : ∀ c ∈ cs, isWordChar c = true) : IsWord w := ⟨h ▸ hne, h ▸ hcs⟩

theorem isWord_decimal (n : Nat) : IsWord n.repr := by
  refine isWord_of_toList Nat.toList_repr (by simp) ?_
  exact isWordChar_toDigits (by decide) (by decide) n

theorem isWord_temp (t : Nat) : IsWord (temp t) := by
  refine isWord_of_toList (toList_temp t) (by simp) ?_
  simpa using ⟨by decide, isWordChar_toDigits (by decide) (by decide) t⟩

theorem isWord_hex (n : Nat) : IsWord (hex n) := by
  refine isWord_of_toList (toList_hex n) (by simp) ?_
  simpa using ⟨by decide, by decide, isWordChar_toDigits (by decide) (by decide) n⟩

theorem isWord_hexAtLeast (width n : Nat) : IsWord (hexAtLeast width n) := by
  refine isWord_of_toList (toList_hexAtLeast width n) (by simp) ?_
  have hpad : ∀ c ∈ List.replicate (width - (Nat.toDigits 16 n).length) '0',
      isWordChar c = true := by
    intro c hc
    rw [List.eq_of_mem_replicate hc]
    decide
  have hdigits : ∀ c ∈ Nat.toDigits 16 n, isWordChar c = true :=
    isWordChar_toDigits (by decide) (by decide) n
  exact List.forall_mem_cons.mpr ⟨by decide, List.forall_mem_cons.mpr
    ⟨by decide, List.forall_mem_append.mpr ⟨hpad, hdigits⟩⟩⟩

/-! ## Plain texts -/

/-- The bytes of a text, of which those below 128 are characters of their own. -/
def bytes (s : String) : List UInt8 := s.toByteArray.data.toList

theorem bytes_eq (s : String) : bytes s = s.toList.flatMap String.utf8EncodeChar := by
  rw [bytes, ← String.utf8Encode_toList, List.utf8Encode]
  simp

theorem utf8EncodeChar_plain {c : Char} (h : ∀ b ∈ String.utf8EncodeChar c, b.toNat < 128) :
    ∃ b : UInt8, String.utf8EncodeChar c = [b] ∧ c = Char.ofNat b.toNat := by
  by_cases hc : c.val.toNat ≤ 0x7f
  · refine ⟨UInt8.ofNat c.val.toNat, if_pos hc, ?_⟩
    have hmod : (UInt8.ofNat c.val.toNat).toNat = c.toNat := by
      rw [UInt8.toNat_ofNat']
      exact Nat.mod_eq_of_lt (by omega)
    rw [hmod, Char.ofNat_toNat]
  · -- The first of several bytes is at least 192.
    obtain ⟨b, hb, hge⟩ : ∃ b ∈ String.utf8EncodeChar c, 128 ≤ b.toNat := by
      simp only [String.utf8EncodeChar, if_neg hc]
      split
      · exact ⟨_, List.mem_cons_self, by rw [UInt8.toNat_ofNat']; omega⟩
      · split <;> exact ⟨_, List.mem_cons_self, by rw [UInt8.toNat_ofNat']; omega⟩
    exact absurd (h b hb) (Nat.not_lt.mpr hge)

theorem toList_eq_of_plain {s : String} (h : ∀ b ∈ bytes s, b.toNat < 128) :
    s.toList = (bytes s).map fun b => Char.ofNat b.toNat := by
  rw [bytes_eq] at h ⊢
  generalize s.toList = cs at h
  induction cs with
  | nil => rfl
  | cons c cs ih =>
      rw [List.flatMap_cons, List.forall_mem_append] at h
      obtain ⟨b, hb, hc⟩ := utf8EncodeChar_plain h.1
      rw [List.flatMap_cons, hb, List.cons_append, List.nil_append, List.map_cons, ← ih h.2, ← hc]

end Text

end PowerLift
