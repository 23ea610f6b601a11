import Mathlib.Data.List.Nodup
import PowerLift.Proofs.Lexing

/-!
# Names of operators

The list of all operators is complete. Their names are words, no two operators share one, and none
is a word that an expression of another form starts with.
-/

namespace PowerLift

open Text

/-! ## All operators -/

theorem Width.mem_all (w : Width) : w ∈ all := by cases w <;> decide

theorem Word.mem_all (w : Word) : w ∈ all := by cases w <;> decide

theorem Narrow.mem_all (w : Narrow) : w ∈ all := by cases w <;> decide

theorem Sign.mem_all (s : Sign) : s ∈ all := by cases s <;> decide

theorem Saturation.mem_all (s : Saturation) : s ∈ all := by cases s <;> decide

theorem FloatLane.mem_all (l : FloatLane) : l ∈ all := by cases l <;> decide

theorem DecFormat.mem_all (f : DecFormat) : f ∈ all := by cases f <;> decide

theorem Cast.mem_all (c : Cast) : c ∈ all := by cases c <;> decide

theorem FloatOp.mem_all (f : FloatOp) : f ∈ all := by cases f <;> decide

theorem DecimalOp.mem_all (d : DecimalOp) : d ∈ all := by
  cases d <;> simp [all, DecFormat.mem_all]

theorem VectorOp.mem_all (v : VectorOp) : v ∈ all := by
  cases v <;> simp [all, Width.mem_all, Narrow.mem_all, Sign.mem_all, Saturation.mem_all]

theorem VectorFloatOp.mem_all (v : VectorFloatOp) : v ∈ all := by
  cases v <;> simp [all, FloatLane.mem_all]

theorem CryptoOp.mem_all (c : CryptoOp) : c ∈ all := by
  cases c <;> simp [all, Width.mem_all]

theorem Op.mem_all (op : Op) : op ∈ all := by
  cases op <;> simp [all, Width.mem_all, Word.mem_all, Sign.mem_all, Cast.mem_all, FloatOp.mem_all,
    DecimalOp.mem_all, VectorOp.mem_all, VectorFloatOp.mem_all, CryptoOp.mem_all]

/-! ## Distinct numbers -/

/-- Whether numbers are distinct, and none is the position of a bit of `taken`. -/
def distinct (taken : Nat) : List Nat → Bool
  | [] => true
  | n :: ns => !taken.testBit n && distinct (taken ||| 1 <<< n) ns

theorem testBit_take (taken n m : Nat) :
    (taken ||| 1 <<< n).testBit m = (taken.testBit m || decide (m = n)) := by
  rw [Nat.testBit_or, Nat.one_shiftLeft, Nat.testBit_two_pow]
  simp [eq_comm]

theorem nodup_of_distinct {taken : Nat} {ns : List Nat} (h : distinct taken ns = true) :
    ns.Nodup ∧ ∀ n ∈ ns, taken.testBit n = false := by
  induction ns generalizing taken with
  | nil => simp
  | cons n ns ih =>
      simp only [distinct, Bool.and_eq_true, Bool.not_eq_true'] at h
      obtain ⟨hfree, hrest⟩ := h
      obtain ⟨hnodup, hothers⟩ := ih hrest
      simp only [testBit_take, Bool.or_eq_false_iff, decide_eq_false_iff_not] at hothers
      exact ⟨List.nodup_cons.mpr ⟨fun hmem => (hothers n hmem).2 rfl, hnodup⟩,
        List.forall_mem_cons.mpr ⟨hfree, fun m hm => (hothers m hm).1⟩⟩

namespace Op

/-! ## Distinct names -/

/-- A number for a name: the remainder of its bytes as one number. No smaller modulus tells all
operators apart. -/
def nameCode (op : Op) : Nat := (bytes op.name).foldl (fun n b => n * 256 + b.toNat) 0 % 9765

theorem distinct_nameCodes : distinct 0 (all.map nameCode) = true := by decide +kernel

theorem name_injective : Function.Injective name := by
  intro op op' h
  have hcode : op.nameCode = op'.nameCode := by rw [nameCode, h, nameCode]
  exact List.inj_on_of_nodup_map (nodup_of_distinct distinct_nameCodes).1
    (mem_all op) (mem_all op') hcode

end Op

/-! ## First words -/

/-- The forms of expressions. -/
inductive Expr.Form where
  | get | tmp | const | apply | load | ite | call
  deriving DecidableEq

/-- The form of the expressions that start with a word. -/
def Expr.Form.ofWord : List Char → Form
  | 't' :: _ => tmp
  | 'p' :: _ => call
  | '0' :: _ | '1' :: _ | ['F', '3', '2'] | ['F', '6', '4'] | ['V', '1', '2', '8'] => const
  | ['G', 'E', 'T'] => get
  | ['I', 'T', 'E'] => ite
  | ['L', 'D', _, _] => load
  | _ => apply

namespace Op

/-- Whether the bytes of a text make a word that an application starts with. -/
def isNameBytes (bs : List UInt8) : Bool :=
  let cs := bs.map fun b => Char.ofNat b.toNat
  !cs.isEmpty && cs.all isWordChar && Expr.Form.ofWord cs == .apply &&
    bs.all (·.toNat < 128)

theorem isNameBytes_all : ∀ op ∈ all, isNameBytes (bytes op.name) = true := by decide +kernel

theorem name_facts (op : Op) : IsWord op.name ∧ Expr.Form.ofWord op.name.toList = .apply := by
  have h := isNameBytes_all op op.mem_all
  simp only [isNameBytes, Bool.and_eq_true, Bool.not_eq_true', beq_iff_eq, List.all_eq_true,
    decide_eq_true_eq, List.isEmpty_eq_false_iff] at h
  obtain ⟨⟨⟨hne, hchars⟩, hform⟩, hplain⟩ := h
  rw [← toList_eq_of_plain hplain] at hne hchars hform
  exact ⟨⟨hne, hchars⟩, hform⟩

theorem isWord_name (op : Op) : IsWord op.name := op.name_facts.1

theorem form_name (op : Op) : Expr.Form.ofWord op.name.toList = .apply := op.name_facts.2

end Op

end PowerLift
