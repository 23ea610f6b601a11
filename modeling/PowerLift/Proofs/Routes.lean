import Mathlib.Data.List.Find
import PowerLift.Route

/-!
# The route of a word

An opcode with a single route says by itself where a word goes. The routes of register forms and of
branches to registers read the ten-bit extended opcode alone, those of vector instructions the
eleven-bit one, and those of floating-point arithmetic the five-bit one. What holds of all words
with such an opcode is then decided on finitely many numbers.
-/

namespace PowerLift

variable {w : Insn}

/-! ## Extended opcodes -/

theorem Insn.xo9_eq (w : Insn) : w.xo9 = w.xo10 % 512 := by
  simp only [xo9, xo10, bits, BitVec.extractLsb'_toNat]
  omega

theorem Insn.xo5_eq (w : Insn) : w.xo5 = w.xo10 % 32 := by
  simp only [xo5, xo10, bits, BitVec.extractLsb'_toNat]
  omega

theorem Insn.xo3_eq (w : Insn) : w.xo3 = w.xo4 / 2 := by
  simp only [xo3, xo4, bits, BitVec.extractLsb'_toNat]
  omega

theorem Insn.vaXo_eq (w : Insn) : w.vaXo = w.vxXo % 64 := by
  simp only [vaXo, vxXo, bits, BitVec.extractLsb'_toNat]
  omega

theorem Insn.vcXo_eq (w : Insn) : w.vcXo = w.vxXo % 1024 := by
  simp only [vcXo, vxXo, bits, BitVec.extractLsb'_toNat]
  omega

theorem Insn.xo10_lt (w : Insn) : w.xo10 < 1024 := BitVec.isLt _

/-- The ten-bit extended opcodes that end in nine bits. -/
theorem Insn.xo10_cases (w : Insn) : w.xo10 = w.xo9 ∨ w.xo10 = w.xo9 + 512 := by
  have heq := w.xo9_eq
  have hlt := w.xo10_lt
  omega

/-! ## Patterns on numbers -/

namespace Pattern

/-- Whether a pattern of register forms takes an extended opcode. -/
def takes : Pattern → Nat → Bool
  | .xo10 set, xo => set.contains xo
  | .xo9 set, xo => set.contains (xo % 512)
  | .xo5 set, xo => set.contains (xo % 32)
  | .xs half, xo => xo / 2 == half
  | _, _ => false

/-- Whether a pattern reads the ten-bit extended opcode alone. -/
def readsXo10 : Pattern → Bool
  | .xo10 _ | .xo9 _ | .xo5 _ | .xs _ => true
  | _ => false

theorem accepts_eq_takes {p : Pattern} (h : p.readsXo10 = true) :
    p.accepts w = p.takes w.xo10 := by
  cases p with
  | xo10 set | xs half => rfl
  | xo9 set => rw [accepts, takes, w.xo9_eq]
  | xo5 set => rw [accepts, takes, w.xo5_eq]
  | _ => contradiction

/-- Whether a pattern of vector instructions takes an extended opcode. -/
def takesVector : Pattern → Nat → Bool
  | .any, _ => true
  | .va set, xo => set.contains (xo % 64)
  | .vx set, xo => set.contains xo
  | .vc set, xo => set.contains (xo % 1024)
  | .packed, xo => (xo &&& 0x5FF) == 0x401 || (xo &&& 0x5FF) == 0x441
  | _, _ => false

/-- Whether a pattern reads the eleven-bit extended opcode alone. -/
def readsVxXo : Pattern → Bool
  | .any | .va _ | .vx _ | .vc _ | .packed => true
  | _ => false

theorem accepts_eq_takesVector {p : Pattern} (h : p.readsVxXo = true) :
    p.accepts w = p.takesVector w.vxXo := by
  cases p with
  | any | vx set | packed => rfl
  | va set => rw [accepts, takesVector, w.vaXo_eq]
  | vc set => rw [accepts, takesVector, w.vcXo_eq]
  | _ => contradiction

/-- Whether a pattern of floating-point arithmetic takes an extended opcode. -/
def takesFloat : Pattern → Nat → Bool
  | .any, _ => true
  | .xo5 set, xo => set.contains xo
  | .fourOperands, xo => decide (18 ≤ xo)
  | _, _ => false

end Pattern

namespace Route

variable {gates : List Gate} {family : Family}

/-- An opcode with a single route. -/
theorem find?_only (h : ofOpcode w.opcode = only family gates) :
    find? w = some ⟨.any, gates, family⟩ := by
  rw [find?, h]
  rfl

/-- The first route of a list, by its gates and its family. -/
theorem exists_pattern {found : Option Route}
    (h : found.map (fun r => (r.gates, r.family)) = some (gates, family)) :
    ∃ pattern, found = some ⟨pattern, gates, family⟩ := by
  obtain ⟨⟨pattern, _, _⟩, hroute, hgates⟩ := Option.map_eq_some_iff.mp h
  cases hgates
  exact ⟨pattern, hroute⟩

/-! ## Register forms -/

/-- The family and the gates of an extended opcode. -/
def ofXo10 (xo : Nat) : Option Route := registerForms.find? (·.pattern.takes xo)

theorem find?_register (hopcode : w.opcode = 31) : find? w = ofXo10 w.xo10 := by
  have hreads : ∀ r ∈ registerForms, r.pattern.readsXo10 = true := by decide
  rw [find?, hopcode]
  exact List.find?_congr fun r hr => Pattern.accepts_eq_takes (hreads r hr)

/-- The register form with an extended opcode. -/
theorem find?_form (hopcode : w.opcode = 31) {xo : Nat} (hxo : w.xo10 = xo)
    (hroute : (ofXo10 xo).map (fun r => (r.gates, r.family)) = some (gates, family)) :
    ∃ pattern, find? w = some ⟨pattern, gates, family⟩ := by
  rw [find?_register hopcode, hxo]
  exact exists_pattern hroute

/-- The register forms with one of some extended opcodes. -/
theorem find?_forms (hopcode : w.opcode = 31) {set : List Nat}
    (hroutes : ∀ xo ∈ set,
      (ofXo10 xo).map (fun r => (r.gates, r.family)) = some (gates, family))
    (hxo : w.xo10 ∈ set) : ∃ pattern, find? w = some ⟨pattern, gates, family⟩ :=
  find?_form hopcode rfl (hroutes _ hxo)

/-- The family of register forms, told by a set of extended opcodes. -/
theorem find?_family (hopcode : w.opcode = 31) {set : List Nat}
    (hroutes : ∀ xo ∈ set, (ofXo10 xo).map (·.family) = some family) (hxo : w.xo10 ∈ set) :
    ∃ route, find? w = some route ∧ route.family = family := by
  rw [find?_register hopcode]
  exact Option.map_eq_some_iff.mp (hroutes _ hxo)

/-- Extended opcodes of arithmetic on registers, without the bit that enables overflow. -/
def arithmeticForms : List Nat :=
  [8, 9, 10, 11, 40, 73, 75, 104, 136, 138, 200, 202, 232, 233, 234, 235, 266, 393, 395, 425, 427,
    457, 459, 489, 491]

theorem find?_arithmetic (hopcode : w.opcode = 31) (hxo : w.xo9 ∈ arithmeticForms) :
    find? w = some ⟨.xo9 arithmeticForms, [], .arithmetic⟩ := by
  have hroutes : ∀ xo ∈ arithmeticForms,
      ofXo10 xo = some ⟨.xo9 arithmeticForms, [], .arithmetic⟩ ∧
        ofXo10 (xo + 512) = some ⟨.xo9 arithmeticForms, [], .arithmetic⟩ := by
    decide +kernel
  rw [find?_register hopcode]
  rcases w.xo10_cases with h | h
  · rw [h]
    exact (hroutes _ hxo).1
  · rw [h]
    exact (hroutes _ hxo).2

/-! ## Branches to registers -/

/-- The family and the gates of an extended opcode of branches to registers. -/
def ofBranchXo10 (xo : Nat) : Option Route := registerBranches.find? (·.pattern.takes xo)

theorem find?_registerBranch (hopcode : w.opcode = 19) : find? w = ofBranchXo10 w.xo10 := by
  have hreads : ∀ r ∈ registerBranches, r.pattern.readsXo10 = true := by decide
  rw [find?, hopcode]
  exact List.find?_congr fun r hr => Pattern.accepts_eq_takes (hreads r hr)

theorem find?_branchForm (hopcode : w.opcode = 19) {xo : Nat} (hxo : w.xo10 = xo)
    (hroute : (ofBranchXo10 xo).map (fun r => (r.gates, r.family)) = some (gates, family)) :
    ∃ pattern, find? w = some ⟨pattern, gates, family⟩ := by
  rw [find?_registerBranch hopcode, hxo]
  exact exists_pattern hroute

/-! ## Vector instructions -/

/-- The route of an extended opcode of vector instructions. -/
def ofVxXo (xo : Nat) : Option Route := vectors.find? (·.pattern.takesVector xo)

theorem find?_vector (hopcode : w.opcode = 4) : find? w = ofVxXo w.vxXo := by
  have hreads : ∀ r ∈ vectors, r.pattern.readsVxXo = true := by decide
  rw [find?, hopcode]
  exact List.find?_congr fun r hr => Pattern.accepts_eq_takesVector (hreads r hr)

/-- A vector instruction by the gates and the family of its route. -/
theorem find?_of_gates (hopcode : w.opcode = 4)
    (h : (ofVxXo w.vxXo).map (fun r => (r.gates, r.family)) = some (gates, family)) :
    ∃ pattern, find? w = some ⟨pattern, gates, family⟩ := by
  rw [find?_vector hopcode]
  exact exists_pattern h

/-! ## Floating-point arithmetic -/

theorem find?_float {graphics : List Nat} (h : ofOpcode w.opcode = floatArithmetic graphics) :
    find? w = (floatArithmetic graphics).find? (·.pattern.takesFloat w.xo5) := by
  rw [find?, h]
  rfl

end Route

end PowerLift
