import Mathlib.Data.List.Pairwise
import PowerLift.State.Layout

/-!
# The record of the guest state

Special slots are placed by a cursor that only moves up, so they follow one another; general
registers, vector-scalar registers and condition bytes lie in regions of their own around them.
Slots are therefore in bounds, naturally aligned, and share no byte.
-/

namespace PowerLift.Layout

/-! ## The cursor -/

theorem le_alignUp (n : Nat) {a : Nat} (ha : 0 < a) : n ≤ alignUp n a := by
  have hdiv := Nat.div_add_mod (n + a - 1) a
  have hmod := Nat.mod_lt (n + a - 1) ha
  rw [Nat.mul_comm] at hdiv
  unfold alignUp
  omega

theorem alignUp_mod (n a : Nat) : alignUp n a % a = 0 := Nat.mul_mod_left _ _

theorem bytes_pos (arch : Arch) (s : SpecialSlot) : 0 < (s.ty arch).bytes := by
  cases arch <;> cases s <;> decide

/-- A slot that was placed between two positions of the cursor. -/
structure Between (arch : Arch) (low high : Nat) (entry : SpecialSlot × Nat) : Prop where
  low_le : low ≤ entry.2
  le_high : entry.2 + (entry.1.ty arch).bytes ≤ high
  aligned : entry.2 % (entry.1.ty arch).bytes = 0

section Place

variable (arch : Arch)

theorem le_place (l : List SpecialSlot) (cursor : Nat) : cursor ≤ (place arch cursor l).2 := by
  induction l generalizing cursor with
  | nil => exact Nat.le_refl cursor
  | cons s l ih =>
      have hcursor := le_alignUp cursor (bytes_pos arch s)
      have hrest := ih (alignUp cursor (s.ty arch).bytes + (s.ty arch).bytes)
      simp only [place]
      omega

theorem place_keys (l : List SpecialSlot) (cursor : Nat) :
    (place arch cursor l).1.map Prod.fst = l := by
  induction l generalizing cursor with
  | nil => rfl
  | cons s l ih => simp only [place, List.map_cons, ih]

theorem place_between (l : List SpecialSlot) (cursor : Nat) :
    ∀ entry ∈ (place arch cursor l).1, Between arch cursor (place arch cursor l).2 entry := by
  induction l generalizing cursor with
  | nil => simp [place]
  | cons s l ih =>
      have hcursor := le_alignUp cursor (bytes_pos arch s)
      have hrest := le_place arch l (alignUp cursor (s.ty arch).bytes + (s.ty arch).bytes)
      intro entry hentry
      rcases List.mem_cons.mp hentry with rfl | hentry
      · exact ⟨hcursor, hrest, alignUp_mod _ _⟩
      · obtain ⟨hlow, hhigh, haligned⟩ := ih _ entry hentry
        exact ⟨by omega, hhigh, haligned⟩

/-- Slots come in the order in which they are placed. -/
theorem place_pairwise (l : List SpecialSlot) (cursor : Nat) :
    (place arch cursor l).1.Pairwise fun a b => a.2 + (a.1.ty arch).bytes ≤ b.2 := by
  induction l generalizing cursor with
  | nil => exact .nil
  | cons s l ih =>
      refine .cons (fun entry hentry => ?_) (ih _)
      -- What comes later lies behind the cursor, which is behind this slot.
      exact (place_between arch l _ entry hentry).low_le

end Place

/-! ## Places that share no byte -/

namespace Place

/-- No byte belongs to both places. -/
def Disjoint (p q : Place) : Prop :=
  p.offset + p.ty.bytes ≤ q.offset ∨ q.offset + q.ty.bytes ≤ p.offset

theorem Disjoint.symm {p q : Place} (h : p.Disjoint q) : q.Disjoint p := Or.symm h

end Place

theorem mem_specials (arch : Arch) (s : SpecialSlot) :
    (s, specialOffset arch s) ∈ (specials arch).1 := by
  have hall : s ∈ (specials arch).1.map Prod.fst := by
    rw [specials, place_keys]
    cases s <;> decide
  cases hlookup : (specials arch).1.lookup s with
  | none =>
      obtain ⟨entry, hmem, heq⟩ := List.mem_map.mp hall
      have hnone := List.lookup_eq_none_iff.mp hlookup entry hmem
      simp [heq] at hnone
  | some o' =>
      obtain ⟨l₁, l₂, heq, -⟩ := List.lookup_eq_some_iff.mp hlookup
      rw [specialOffset, hlookup, heq]
      simp

theorem special_between (arch : Arch) (s : SpecialSlot) :
    Between arch (specialBase arch) (crBase arch) (s, specialOffset arch s) :=
  place_between arch _ _ _ (mem_specials arch s)

theorem special_disjoint (arch : Arch) {s s' : SpecialSlot} (hne : s ≠ s') :
    specialOffset arch s + (s.ty arch).bytes ≤ specialOffset arch s' ∨
      specialOffset arch s' + (s'.ty arch).bytes ≤ specialOffset arch s := by
  let apart (a b : SpecialSlot × Nat) : Prop :=
    a.2 + (a.1.ty arch).bytes ≤ b.2 ∨ b.2 + (b.1.ty arch).bytes ≤ a.2
  have : Std.Symm apart := ⟨fun _ _ h => Or.symm h⟩
  have hpairwise : (specials arch).1.Pairwise apart :=
    (place_pairwise arch _ _).imp fun h => .inl h
  exact hpairwise.forall (mem_specials arch s) (mem_specials arch s') fun h =>
    hne (congrArg Prod.fst h)

/-! ## Regions -/

theorem wordTy_bytes (arch : Arch) : arch.wordTy.bytes = arch.wordBytes := by cases arch <;> rfl

theorem gprs_below_vsrs (arch : Arch) : 32 * arch.wordBytes ≤ vsrBase arch :=
  le_alignUp _ (by decide)

theorem specialBase_eq (arch : Arch) : specialBase arch = vsrBase arch + 1024 := rfl

theorem specialBase_le_crBase (arch : Arch) : specialBase arch ≤ crBase arch :=
  le_place arch _ _

theorem crBase_le_size (arch : Arch) : crBase arch + 16 ≤ size arch :=
  le_alignUp _ (by decide)

/-- The bytes from which and up to which slots of a kind reach. -/
def region (arch : Arch) : Slot → Nat × Nat
  | .gpr _ => (0, 32 * arch.wordBytes)
  | .vsr _ => (vsrBase arch, specialBase arch)
  | .special _ => (specialBase arch, crBase arch)
  | .cr321 _ | .cr0 _ => (crBase arch, crBase arch + 16)

section Locate

variable {arch : Arch} {i : Nat} {p q : Place}

theorem locate_gpr (h : locate arch (.gpr i) = .ok p) :
    i < 32 ∧ p = ⟨i * arch.wordBytes, arch.wordTy⟩ := by
  simp only [locate, offset] at h
  split at h <;> simp_all [Except.map, Slot.ty]

theorem locate_vsr (h : locate arch (.vsr i) = .ok p) :
    i < 64 ∧ p = ⟨vsrBase arch + i * 16, .v128⟩ := by
  simp only [locate, offset] at h
  split at h <;> simp_all [Except.map, Slot.ty]

theorem locate_cr321 (h : locate arch (.cr321 i) = .ok p) :
    i < 8 ∧ p = ⟨crBase arch + 2 * i, .i8⟩ := by
  simp only [locate, offset] at h
  split at h <;> simp_all [Except.map, Slot.ty]

theorem locate_cr0 (h : locate arch (.cr0 i) = .ok p) :
    i < 8 ∧ p = ⟨crBase arch + 2 * i + 1, .i8⟩ := by
  simp only [locate, offset] at h
  split at h <;> simp_all [Except.map, Slot.ty]

theorem locate_special {x : SpecialSlot} (h : locate arch (.special x) = .ok p) :
    p = ⟨specialOffset arch x, x.ty arch⟩ := by
  simpa [locate, offset, Except.map, Slot.ty] using h.symm

/-- A general register ends before the next one starts. -/
theorem gpr_end {j : Nat} (hij : i < j) : i * arch.wordBytes + arch.wordBytes ≤ j * arch.wordBytes := by
  have hle := Nat.mul_le_mul_right arch.wordBytes (show i + 1 ≤ j from hij)
  rwa [Nat.add_one_mul] at hle

theorem locate_region {s : Slot} (h : locate arch s = .ok p) :
    (region arch s).1 ≤ p.offset ∧ p.offset + p.ty.bytes ≤ (region arch s).2 := by
  cases s with
  | gpr i =>
      obtain ⟨hi, rfl⟩ := locate_gpr h
      simp only [region, wordTy_bytes]
      exact ⟨Nat.zero_le _, gpr_end hi⟩
  | vsr i =>
      obtain ⟨hi, rfl⟩ := locate_vsr h
      simp only [region, specialBase_eq, Ty.bytes, Ty.bits]
      omega
  | cr321 n =>
      obtain ⟨hn, rfl⟩ := locate_cr321 h
      simp only [region, Ty.bytes, Ty.bits]
      omega
  | cr0 n =>
      obtain ⟨hn, rfl⟩ := locate_cr0 h
      simp only [region, Ty.bytes, Ty.bits]
      omega
  | special x =>
      rw [locate_special h]
      exact ⟨(special_between arch x).low_le, (special_between arch x).le_high⟩

/-! ## All slots -/

theorem locate_bounds {s : Slot} (h : locate arch s = .ok p) :
    p.offset + p.ty.bytes ≤ size arch := by
  have hregion := (locate_region h).2
  have hgprs := gprs_below_vsrs arch
  have hvsrs := specialBase_eq arch
  have hspecials := specialBase_le_crBase arch
  have hcrs := crBase_le_size arch
  cases s <;> simp only [region] at hregion <;> omega

theorem locate_aligned {s : Slot} (h : locate arch s = .ok p) : p.offset % p.ty.bytes = 0 := by
  cases s with
  | gpr i =>
      obtain ⟨-, rfl⟩ := locate_gpr h
      rw [wordTy_bytes]
      exact Nat.mul_mod_left _ _
  | vsr i =>
      obtain ⟨-, rfl⟩ := locate_vsr h
      have hbase : vsrBase arch % 16 = 0 := alignUp_mod _ _
      simp only [Ty.bytes, Ty.bits]
      omega
  | cr321 n =>
      obtain ⟨-, rfl⟩ := locate_cr321 h
      simp only [Ty.bytes, Ty.bits]
      omega
  | cr0 n =>
      obtain ⟨-, rfl⟩ := locate_cr0 h
      simp only [Ty.bytes, Ty.bits]
      omega
  | special x =>
      rw [locate_special h]
      exact (special_between arch x).aligned

/-- Different slots share no byte. -/
theorem locate_disjoint {s s' : Slot} (h : locate arch s = .ok p) (h' : locate arch s' = .ok q)
    (hne : s ≠ s') : p.Disjoint q := by
  have hregion := locate_region h
  have hregion' := locate_region h'
  have hgprs := gprs_below_vsrs arch
  have hvsrs := specialBase_eq arch
  have hspecials := specialBase_le_crBase arch
  unfold Place.Disjoint
  -- Slots of different kinds lie in different regions; within one kind the index decides.
  cases s <;> cases s' <;> simp only [region] at hregion hregion' <;> try omega
  case gpr.gpr i j =>
    obtain ⟨-, rfl⟩ := locate_gpr h
    obtain ⟨-, rfl⟩ := locate_gpr h'
    simp only [wordTy_bytes]
    rcases Nat.lt_or_gt_of_ne (fun hij => hne (congrArg Slot.gpr hij)) with hij | hij
    · exact .inl (gpr_end hij)
    · exact .inr (gpr_end hij)
  case vsr.vsr i j =>
    obtain ⟨-, rfl⟩ := locate_vsr h
    obtain ⟨-, rfl⟩ := locate_vsr h'
    have hij : i ≠ j := fun hij => hne (congrArg Slot.vsr hij)
    simp only [Ty.bytes, Ty.bits]
    omega
  case special.special x y =>
    rw [locate_special h, locate_special h']
    exact special_disjoint arch fun hxy => hne (congrArg Slot.special hxy)
  case cr321.cr321 m n =>
    obtain ⟨-, rfl⟩ := locate_cr321 h
    obtain ⟨-, rfl⟩ := locate_cr321 h'
    have hmn : m ≠ n := fun hmn => hne (congrArg Slot.cr321 hmn)
    simp only [Ty.bytes, Ty.bits]
    omega
  case cr0.cr0 m n =>
    obtain ⟨-, rfl⟩ := locate_cr0 h
    obtain ⟨-, rfl⟩ := locate_cr0 h'
    have hmn : m ≠ n := fun hmn => hne (congrArg Slot.cr0 hmn)
    simp only [Ty.bytes, Ty.bits]
    omega
  case cr321.cr0 m n =>
    obtain ⟨-, rfl⟩ := locate_cr321 h
    obtain ⟨-, rfl⟩ := locate_cr0 h'
    simp only [Ty.bytes, Ty.bits]
    omega
  case cr0.cr321 m n =>
    obtain ⟨-, rfl⟩ := locate_cr0 h
    obtain ⟨-, rfl⟩ := locate_cr321 h'
    simp only [Ty.bytes, Ty.bits]
    omega

theorem locate_ty {s : Slot} (h : locate arch s = .ok p) : p.ty = s.ty arch := by
  unfold locate at h
  cases hoffset : offset arch s with
  | error f => simp [hoffset, Except.map] at h
  | ok o =>
      obtain rfl : ⟨o, s.ty arch⟩ = p := by simpa [hoffset, Except.map] using h
      rfl

theorem locate_bytes_pos {s : Slot} (h : locate arch s = .ok p) : 0 < p.ty.bytes := by
  rw [locate_ty h]
  cases s with
  | special x => exact bytes_pos arch x
  | _ => cases arch <;> simp [Slot.ty, Arch.wordTy, Ty.bytes, Ty.bits]

/-- Two slots at one offset are the same slot. -/
theorem locate_injective {s s' : Slot} (h : locate arch s = .ok p) (h' : locate arch s' = .ok q)
    (hoffset : p.offset = q.offset) : s = s' := by
  by_contra hne
  have hpos := locate_bytes_pos h
  have hpos' := locate_bytes_pos h'
  rcases locate_disjoint h h' hne with hle | hle <;> omega

/-- A floating-point register is the high half of its vector-scalar register. -/
theorem fpr_eq_ok {host : ByteOrder} (h : fpr arch i host = .ok p) :
    i < 32 ∧ p = ⟨vsrBase arch + i * 16 + (if host = .little then 8 else 0), .f64⟩ := by
  unfold fpr at h
  split at h
  next hi =>
    refine ⟨hi, ?_⟩
    have hoffset : offset arch (.vsr i) = .ok (vsrBase arch + i * 16) := by
      simp [offset, show i < 64 by omega]
    rw [hoffset] at h
    cases host <;> simpa [Except.map] using h.symm
  next => contradiction

/-- A floating-point register ends where the special slots start, or before. -/
theorem fpr_le {host : ByteOrder} (h : fpr arch i host = .ok p) :
    p.ty = .f64 ∧ p.offset + 8 ≤ specialBase arch := by
  obtain ⟨hi, rfl⟩ := fpr_eq_ok h
  have hbase := specialBase_eq arch
  refine ⟨rfl, ?_⟩
  split <;> simp only <;> omega

end Locate

end PowerLift.Layout
