import Mathlib.Data.String.Basic
import PowerLift.Scan
import PowerLift.Proofs.Formation
import PowerLift.Proofs.Requests

/-!
# What a scan counts

Every aligned word of an image is counted once, as lifted or as refused, and once more for the
family that owns it or as owned by none. A word without a family is always refused: the words that
announce a request have one themselves.
-/

namespace PowerLift

theorem Family.ofName?_name (f : Family) : ofName? f.name = some f := by
  cases f <;> decide

theorem Family.name_injective : Function.Injective name := fun f f' h => by
  simpa only [ofName?_name, Option.some.injEq] using congrArg ofName? h

/-! ## Counts of the families -/

namespace ScanReport

/-- The families stand in the order of their names. -/
def Sorted (cs : List FamilyCount) : Prop :=
  cs.Pairwise fun c c' => c.family.name < c'.family.name

/-- The count of a family; a family that is not listed has none. -/
def entry (f : Family) : List FamilyCount → FamilyCount
  | [] => ⟨f, 0, 0⟩
  | c :: cs => if c.family = f then c else entry f cs

variable {f : Family} {b : Bool} {c : FamilyCount} {cs : List FamilyCount}

theorem entry_eq_empty (h : ∀ c ∈ cs, c.family ≠ f) : entry f cs = ⟨f, 0, 0⟩ := by
  induction cs with
  | nil => rfl
  | cons c cs ih =>
      rw [entry, if_neg (h c List.mem_cons_self),
        ih fun c' hc' => h c' (List.mem_cons_of_mem c hc')]

theorem entry_mem (h : entry f cs ≠ ⟨f, 0, 0⟩) : entry f cs ∈ cs := by
  induction cs with
  | nil => exact absurd rfl h
  | cons c cs ih =>
      unfold entry at h ⊢
      split
      next => exact List.mem_cons_self
      next hne =>
        rw [if_neg hne] at h
        exact List.mem_cons_of_mem c (ih h)

/-- Each family is listed once. -/
theorem Sorted.entry_eq (hsorted : Sorted cs) (hc : c ∈ cs) : entry c.family cs = c := by
  induction cs with
  | nil => cases hc
  | cons c' cs ih =>
      obtain ⟨hless, htail⟩ := List.pairwise_cons.mp hsorted
      obtain rfl | hc := List.mem_cons.mp hc
      · rw [entry, if_pos rfl]
      · have hne : c'.family ≠ c.family := fun heq => (hless c hc).ne (congrArg Family.name heq)
        rw [entry, if_neg hne, ih htail hc]

/-- Counting a word lists no other family. -/
theorem mem_countFamily (h : c ∈ countFamily f b cs) :
    (∃ c' ∈ cs, c'.family = c.family ∧ c'.words ≤ c.words) ∨ (c.family = f ∧ 0 < c.words) := by
  induction cs with
  | nil =>
      obtain rfl := List.mem_singleton.mp h
      exact .inr ⟨rfl, Nat.one_pos⟩
  | cons c' cs ih =>
      unfold countFamily at h
      split at h
      next =>
        obtain rfl | h := List.mem_cons.mp h
        · exact .inl ⟨c', List.mem_cons_self, rfl, Nat.le_add_right _ 1⟩
        · exact .inl ⟨c, List.mem_cons_of_mem c' h, rfl, le_rfl⟩
      split at h
      next =>
        obtain rfl | h := List.mem_cons.mp h
        · exact .inr ⟨rfl, Nat.one_pos⟩
        · exact .inl ⟨c, h, rfl, le_rfl⟩
      next =>
        obtain rfl | h := List.mem_cons.mp h
        · exact .inl ⟨c, List.mem_cons_self, rfl, le_rfl⟩
        · exact (ih h).imp_left fun ⟨c'', hc'', h⟩ => ⟨c'', List.mem_cons_of_mem c' hc'', h⟩

theorem Sorted.countFamily (hsorted : Sorted cs) : Sorted (ScanReport.countFamily f b cs) := by
  induction cs with
  | nil => exact List.pairwise_singleton _ _
  | cons c cs ih =>
      obtain ⟨hless, htail⟩ := List.pairwise_cons.mp hsorted
      unfold ScanReport.countFamily
      split
      next => exact List.pairwise_cons.mpr ⟨hless, htail⟩
      split
      next hlt =>
        refine List.pairwise_cons.mpr ⟨fun c' hc' => ?_, hsorted⟩
        obtain rfl | hc' := List.mem_cons.mp hc'
        · exact hlt
        · exact hlt.trans (hless c' hc')
      next hne hnlt =>
        refine List.pairwise_cons.mpr ⟨fun c' hc' => ?_, ih htail⟩
        obtain ⟨c'', hc'', heq, -⟩ | ⟨heq, -⟩ := mem_countFamily hc'
        · exact heq ▸ hless c'' hc''
        · rw [heq]
          exact lt_of_le_of_ne (not_lt.mp hnlt) fun hname => hne (Family.name_injective hname)

/-- Counting a word counts for its family. -/
theorem entry_countFamily_self (hsorted : Sorted cs) :
    entry f (countFamily f b cs) =
      ⟨f, (entry f cs).words + 1, (entry f cs).refused + b.toNat⟩ := by
  induction cs with
  | nil => simp [countFamily, entry]
  | cons c cs ih =>
      obtain ⟨hless, htail⟩ := List.pairwise_cons.mp hsorted
      unfold countFamily
      split
      next heq =>
        subst heq
        simp only [entry, if_true]
      split
      next hne hlt =>
        -- All families listed have greater names.
        have hempty : entry f (c :: cs) = ⟨f, 0, 0⟩ := by
          refine entry_eq_empty fun c' hc' heq => ?_
          obtain rfl | hc' := List.mem_cons.mp hc'
          · exact hne heq
          · exact (hlt.trans (hless c' hc')).ne (congrArg Family.name heq.symm)
        rw [hempty, entry, if_pos rfl, Nat.zero_add, Nat.zero_add]
      next hne hnlt => rw [entry, if_neg hne, entry, if_neg hne, ih htail]

/-- Counting a word counts for no other family. -/
theorem entry_countFamily_of_ne {f' : Family} (hne : f' ≠ f) :
    entry f' (countFamily f b cs) = entry f' cs := by
  induction cs with
  | nil => exact if_neg hne.symm
  | cons c cs ih =>
      unfold countFamily
      split
      next heq => rw [entry, entry, if_neg (heq ▸ hne.symm), if_neg (heq ▸ hne.symm)]
      split
      next => exact if_neg hne.symm
      next => rw [entry, entry, ih]

theorem sum_countFamily (f : Family) (b : Bool) (cs : List FamilyCount) :
    ((countFamily f b cs).map FamilyCount.words).sum = (cs.map FamilyCount.words).sum + 1 ∧
      ((countFamily f b cs).map FamilyCount.refused).sum =
        (cs.map FamilyCount.refused).sum + b.toNat := by
  induction cs with
  | nil => simp [countFamily]
  | cons c cs ih =>
      unfold countFamily
      split
      next => simp only [List.map_cons, List.sum_cons]; omega
      split
      next => simp only [List.map_cons, List.sum_cons]; omega
      next => simp only [List.map_cons, List.sum_cons, ih]; omega

end ScanReport

/-! ## Verdicts -/

/-- What is found out about a word: the family that owns it, and whether it is refused. -/
structure WordVerdict where
  family? : Option Family
  isRefused : Bool

namespace WordVerdict

/-- The verdicts on the words of a family, counted. -/
def tally (f : Family) (vs : List WordVerdict) : FamilyCount :=
  ⟨f, vs.countP (·.family? = some f), vs.countP fun v => v.family? = some f && v.isRefused⟩

theorem tally_append_self (f : Family) (vs : List WordVerdict) (isRefused : Bool) :
    tally f (vs ++ [⟨some f, isRefused⟩]) =
      ⟨f, (tally f vs).words + 1, (tally f vs).refused + isRefused.toNat⟩ := by
  cases isRefused <;> simp [tally, List.countP_append]

theorem tally_append_of_ne {f : Family} {v : WordVerdict} (h : v.family? ≠ some f)
    (vs : List WordVerdict) : tally f (vs ++ [v]) = tally f vs := by
  simp [tally, List.countP_append, h]

end WordVerdict

namespace ScanReport

/-- A report counts these verdicts. -/
structure Tallies (r : ScanReport) (vs : List WordVerdict) : Prop where
  words_eq : r.words = vs.length
  lifted_eq : r.lifted = vs.countP (!·.isRefused)
  refused_eq : r.refused = vs.countP (·.isRefused)
  unassigned_eq : r.unassigned = vs.countP (·.family?.isNone)
  sorted : Sorted r.families
  entry_eq : ∀ f, entry f r.families = WordVerdict.tally f vs
  occurs : ∀ c ∈ r.families, 0 < c.words
  sum_words : (r.families.map FamilyCount.words).sum = vs.countP (·.family?.isSome)
  sum_refused : (r.families.map FamilyCount.refused).sum =
    vs.countP fun v => v.family?.isSome && v.isRefused

namespace Tallies

variable {r : ScanReport} {vs : List WordVerdict}

theorem nil : Tallies {} [] where
  words_eq := rfl
  lifted_eq := rfl
  refused_eq := rfl
  unassigned_eq := rfl
  sorted := .nil
  entry_eq _ := rfl
  occurs _ h := nomatch h
  sum_words := rfl
  sum_refused := rfl

/-- One more word is counted. -/
theorem count (h : r.Tallies vs) (v : WordVerdict) :
    (r.count v.family? v.isRefused).Tallies (vs ++ [v]) := by
  obtain ⟨family?, isRefused⟩ := v
  cases family? with
  | none =>
      constructor
      case sorted => exact h.sorted
      case occurs => exact h.occurs
      case entry_eq =>
        intro f
        rw [WordVerdict.tally_append_of_ne (Option.some_ne_none f).symm]
        exact h.entry_eq f
      all_goals
        cases isRefused <;>
          simp [ScanReport.count, h.words_eq, h.lifted_eq, h.refused_eq, h.unassigned_eq,
            h.sum_words, h.sum_refused, List.countP_append]
  | some f =>
      obtain ⟨hwords, hrefused⟩ := sum_countFamily f isRefused r.families
      constructor
      case sorted => exact h.sorted.countFamily
      case occurs =>
        intro c hc
        obtain ⟨c', hc', -, hle⟩ | ⟨-, hpos⟩ := mem_countFamily hc
        · exact (h.occurs c' hc').trans_le hle
        · exact hpos
      case entry_eq =>
        intro f'
        change entry f' (countFamily f isRefused r.families) = _
        by_cases heq : f' = f
        · subst heq
          rw [entry_countFamily_self h.sorted, WordVerdict.tally_append_self, h.entry_eq]
        · have hne : some f ≠ some f' := fun hsome => heq (Option.some.inj hsome).symm
          rw [entry_countFamily_of_ne heq, WordVerdict.tally_append_of_ne hne, h.entry_eq]
      all_goals
        cases isRefused <;>
          simp [ScanReport.count, h.words_eq, h.lifted_eq, h.refused_eq, h.unassigned_eq, hwords,
            hrefused, h.sum_words, h.sum_refused, List.countP_append]

/-- The families listed are those that own words, each with its counts. -/
theorem mem_families_iff (h : r.Tallies vs) {c : FamilyCount} :
    c ∈ r.families ↔ c = WordVerdict.tally c.family vs ∧ ∃ v ∈ vs, v.family? = some c.family := by
  have hoccurs : (∃ v ∈ vs, v.family? = some c.family) ↔
      0 < (WordVerdict.tally c.family vs).words := by
    simp [WordVerdict.tally, List.countP_pos_iff]
  rw [hoccurs]
  constructor
  · intro hc
    have heq : c = WordVerdict.tally c.family vs := (h.sorted.entry_eq hc).symm.trans (h.entry_eq _)
    exact ⟨heq, heq ▸ h.occurs c hc⟩
  · rintro ⟨heq, hpos⟩
    rw [heq, ← h.entry_eq]
    refine entry_mem fun hempty => ?_
    rw [← h.entry_eq, hempty] at hpos
    exact absurd hpos (Nat.lt_irrefl 0)

theorem words_eq_add (h : r.Tallies vs) : r.words = r.lifted + r.refused := by
  rw [h.words_eq, h.lifted_eq, h.refused_eq, Nat.add_comm,
    List.length_eq_countP_add_countP (·.isRefused)]
  simp only [Bool.not_eq_true, Bool.decide_eq_false]

theorem sum_words_add (h : r.Tallies vs) :
    (r.families.map FamilyCount.words).sum + r.unassigned = r.words := by
  rw [h.words_eq, h.sum_words, h.unassigned_eq,
    List.length_eq_countP_add_countP (·.family?.isSome)]
  simp only [Bool.not_eq_true, Option.isSome_eq_false_iff, Bool.decide_eq_true]

/-- Where words without a family are refused, the others are refused within their families. -/
theorem refused_eq_add (h : r.Tallies vs)
    (hnone : ∀ v ∈ vs, v.family? = none → v.isRefused = true) :
    r.refused = r.unassigned + (r.families.map FamilyCount.refused).sum := by
  rw [h.refused_eq, h.unassigned_eq, h.sum_refused,
    List.countP_eq_countP_filter_add vs (·.isRefused) (·.family?.isNone), List.countP_filter,
    List.countP_filter]
  congr 1
  · refine List.countP_congr fun v hv => ?_
    simpa using hnone v hv
  · exact List.countP_congr fun v _ => by simp [and_comm]

end Tallies

end ScanReport

/-! ## Words without a family -/

/-- The words that announce a request have a family. -/
theorem Hook.family?_preamble {arch : Arch} {w : BitVec 32} (h : w ∈ (preamble arch).head?) :
    (Insn.mk w).family? ≠ none := by
  cases arch <;> (obtain rfl := Option.some.inj h; decide)

namespace Guest

variable {g : Guest} {code : ByteArray} {offset : Nat} {w : Insn} {cia blockStart : BitVec 64}
  {block : Block}

theorem scan_of_unowned (hfetch : Insn.fetch? code offset g.info.order = some w)
    (hfamily : w.family? = none) :
    Announced.scan code offset g.arch g.info.order = .absent := by
  refine Announced.scan_absent_iff.mpr fun request hopens => ?_
  obtain ⟨v, rest, hpreamble⟩ : ∃ v rest, Hook.preamble g.arch = v :: rest := by
    cases g.arch <;> exact ⟨_, _, rfl⟩
  rw [Announced.Opens, hpreamble, List.cons_append, Insn.standAt_cons,
    ← Insn.fetch?_eq_some_iff, hfetch] at hopens
  obtain rfl := Option.some.inj hopens.1
  exact Hook.family?_preamble (by rw [hpreamble]; rfl) hfamily

/-- A word that no family owns is refused. -/
theorem lift_of_unowned (hcheck : g.check = .ok ())
    (hfetch : Insn.fetch? code offset g.info.order = some w) (hfamily : w.family? = none) :
    (g.lift code offset cia blockStart block).result = .ok ⟨0, .stop .noDecode, none⟩ := by
  have hroute : Route.find? w = none := Option.map_eq_none_iff.mp hfamily
  have hinstruction : Lift.instruction w = Lift.unrecognized w "primary opcode" := by
    rw [Lift.instruction, hroute]
  have hattempt : g.attempt code offset cia blockStart block w =
      Lift.exec (g.env cia blockStart) { stage := (Stage.start block).mark cia 4 0 }
        (Lift.unrecognized w "primary opcode" >>= fun () => pure (4, none)) := by
    rw [attempt, scan_of_unowned hfetch hfamily, body, hinstruction]
    rfl
  obtain ⟨hresult, -⟩ := lift_of_refusal hcheck hfetch hattempt
  exact hresult

end Guest

/-! ## The words of an image -/

namespace Image

/-- The address of an aligned word. -/
def wordAddr (image : Image) (i : Nat) : BitVec 64 := image.base + .ofNat 64 (4 * i)

/-- The aligned words. -/
def words (image : Image) (order : ByteOrder) : List Insn :=
  (List.range (image.bytes.size / 4)).filterMap fun i => Insn.fetch? image.bytes (4 * i) order

variable {image : Image} {i : Nat}

theorem wordAddr_zero : image.wordAddr 0 = image.base := BitVec.add_zero image.base

theorem wordAddr_succ : image.wordAddr (i + 1) = image.wordAddr i + 4 := by
  rw [wordAddr, wordAddr, Nat.mul_succ, BitVec.ofNat_add, BitVec.add_assoc]
  rfl

theorem toNat_wordAddr (h : image.base.toNat + 4 * i < UInt64.size) :
    (image.wordAddr i).toNat = image.base.toNat + 4 * i := by
  have hsize : UInt64.size = 2 ^ 64 := rfl
  rw [wordAddr, BitVec.toNat_add, BitVec.toNat_ofNat]
  omega

theorem offset?_wordAddr (h : image.base.toNat + 4 * i < UInt64.size)
    (hi : i < image.bytes.size / 4) : image.offset? (image.wordAddr i) = some (4 * i) := by
  rw [offset?_word (toNat_wordAddr h), if_pos hi]

/-- No whole word stands behind the aligned words. -/
theorem offset?_wordAddr_eq_none (h : image.base.toNat + 4 * i < UInt64.size)
    (hi : image.bytes.size / 4 ≤ i) : image.offset? (image.wordAddr i) = none := by
  rw [offset?_word (toNat_wordAddr h), if_neg hi.not_gt]

theorem length_words (image : Image) (order : ByteOrder) :
    (image.words order).length = image.bytes.size / 4 := by
  rw [words, List.length_filterMap_eq_countP, List.countP_eq_length.mpr, List.length_range]
  intro i hi
  have hcode : 4 * i + 4 ≤ image.bytes.size := by
    have hlt := List.mem_range.mp hi
    omega
  obtain ⟨w, hfetch⟩ := Guest.fetch?_isSome order hcode
  exact Option.isSome_of_eq_some hfetch

end Image

namespace Guest

variable {g : Guest} {image : Image} {addr : BitVec 64} {i count : Nat} {r r' : ScanReport}

open Session (Returns returns_bind returns_pure returns_ofFault)

/-- What lifting the instruction at an address of an image by itself amounts to. -/
def verdictAt? (g : Guest) (image : Image) (addr : BitVec 64) : Option (Except Fault Lifted) :=
  (g.step image addr addr (fun _ => false) g.emptyBlock).map Report.result

/-- Whether the instruction at an address of an image is accepted. -/
def accepts (g : Guest) (image : Image) (addr : BitVec 64) : Bool :=
  match g.verdictAt? image addr with
  | some (.ok l) => !l.isRefused
  | _ => false

/-- The verdict on an aligned word. -/
def verdict (g : Guest) (image : Image) (i : Nat) : WordVerdict where
  family? := (Insn.fetch? image.bytes (4 * i) g.info.order).bind Insn.family?
  isRefused := !g.accepts image (image.wordAddr i)

/-- The first words of an image are scanned. -/
structure Scanned (g : Guest) (image : Image) (i : Nat) (r : ScanReport) : Prop where
  fits : image.base.toNat + 4 * i < UInt64.size
  lifts : ∀ j < i, ∃ l, g.verdictAt? image (image.wordAddr j) = some (.ok l)
  tallies : r.Tallies ((List.range i).map (g.verdict image))

theorem Scanned.offset?_eq {j : Nat} (hscanned : g.Scanned image i r)
    (hi : i ≤ image.bytes.size / 4) (hj : j < i) :
    image.offset? (image.wordAddr j) = some (4 * j) := by
  have hfits := hscanned.fits
  exact Image.offset?_wordAddr (by omega) (by omega)

/-- A verdict is found where lifting gives a result. -/
theorem returns_isRefusedAt {isRefused : Bool} (hinside : (image.offset? addr).isSome)
    (h : Returns (g.isRefusedAt image addr) isRefused) :
    ∃ l, g.verdictAt? image addr = some (.ok l) ∧ isRefused = l.isRefused := by
  obtain ⟨offset, hoffset⟩ := Option.isSome_iff_exists.mp hinside
  rw [isRefusedAt, step, hoffset, Option.map_some] at h
  obtain ⟨_, _, h⟩ := returns_bind h
  obtain ⟨l, hresult, h⟩ := returns_bind h
  refine ⟨l, ?_, (returns_pure h).symm⟩
  rw [verdictAt?, step, hoffset, Option.map_some, Option.map_some, returns_ofFault hresult]

/-- One more word is scanned. -/
theorem Scanned.next (hscanned : g.Scanned image i r) (hi : i < image.bytes.size / 4)
    (h : Returns (g.scanFrom image (image.wordAddr i) r) r') :
    ∃ r₁, g.Scanned image (i + 1) r₁ ∧
      Returns (g.scanFrom image (image.wordAddr (i + 1)) r₁) r' := by
  have hoffset : image.offset? (image.wordAddr i) = some (4 * i) :=
    Image.offset?_wordAddr hscanned.fits hi
  obtain ⟨word, hfetch⟩ := fetch?_isSome g.info.order (Image.offset?_eq_some hoffset).2
  rw [scanFrom_word hoffset hfetch] at h
  obtain ⟨isRefused, hrefused, h⟩ := returns_bind h
  obtain ⟨behind, hbehind, h⟩ := returns_bind h
  obtain ⟨l, hlifts, rfl⟩ := returns_isRefusedAt (Option.isSome_of_eq_some hoffset) hrefused
  obtain ⟨hfits, rfl⟩ := Address.add_eq_ok_iff.mp (returns_ofFault hbehind)
  rw [Image.toNat_wordAddr hscanned.fits] at hfits
  rw [← Image.wordAddr_succ] at h
  have hverdict : g.verdict image i = ⟨word.family?, l.isRefused⟩ := by
    simp only [verdict, accepts, hlifts, hfetch, Option.bind_some, Bool.not_not]
  refine ⟨_, ⟨hfits, fun j hj => ?_, ?_⟩, h⟩
  · obtain hj | rfl := Nat.lt_succ_iff_lt_or_eq.mp hj
    · exact hscanned.lifts j hj
    · exact ⟨l, hlifts⟩
  · rw [List.range_succ, List.map_append, List.map_singleton, hverdict]
    exact hscanned.tallies.count ⟨_, l.isRefused⟩

/-- The scan ends behind the last whole word. -/
theorem Scanned.run (hscanned : g.Scanned image i r) (hcount : i + count = image.bytes.size / 4)
    (h : Returns (g.scanFrom image (image.wordAddr i) r) r') :
    g.Scanned image (image.bytes.size / 4) r' := by
  induction count generalizing i r with
  | zero =>
      rw [scanFrom_outside (Image.offset?_wordAddr_eq_none hscanned.fits hcount.ge)] at h
      obtain rfl := returns_pure h
      exact hcount ▸ hscanned
  | succ count ih =>
      obtain ⟨r₁, hnext, hrest⟩ := hscanned.next (by omega) h
      exact ih hnext (by omega) hrest

theorem scan_scanned (h : (g.scan image).exec.1 = .ok r) :
    g.Scanned image (image.bytes.size / 4) r := by
  have hreturns : Returns (g.scanFrom image (image.wordAddr 0) {}) r := by
    rw [Image.wordAddr_zero]
    exact ⟨{}, _, Prod.ext h rfl⟩
  have hzero : g.Scanned image 0 {} := ⟨image.base.isLt, nofun, .nil⟩
  exact hzero.run (Nat.zero_add _) hreturns

/-- The verdicts on the words of a family are counted word by word. -/
theorem tally_verdicts (g : Guest) (image : Image) (f : Family) :
    (WordVerdict.tally f ((List.range (image.bytes.size / 4)).map (g.verdict image))).words =
      (image.words g.info.order).countP fun w => w.family?.map Family.name = some f.name := by
  rw [WordVerdict.tally, Image.words, List.countP_map, List.countP_filterMap]
  refine List.countP_congr fun i _ => ?_
  cases hfetch : Insn.fetch? image.bytes (4 * i) g.info.order with
  | none => simp [verdict, hfetch]
  | some w => simp [verdict, hfetch, Family.name_injective.eq_iff]

/-- A word without a family is refused. -/
theorem Scanned.isRefused {j : Nat} (hscanned : g.Scanned image i r) (hj : j < i)
    (hi : i ≤ image.bytes.size / 4) (hfamily : (g.verdict image j).family? = none) :
    (g.verdict image j).isRefused = true := by
  obtain ⟨l, hl⟩ := hscanned.lifts j hj
  have hresult : ({ g with mayResteer := fun _ => false }.lift image.bytes (4 * j)
      (image.wordAddr j) (image.wordAddr j) g.emptyBlock).result = .ok l := by
    rw [verdictAt?, step, hscanned.offset?_eq hi hj] at hl
    exact Option.some.inj hl
  obtain ⟨w, hfetch⟩ := fetch_of_lift hresult
  have hunowned : w.family? = none := by
    have hfetch : Insn.fetch? image.bytes (4 * j) g.info.order = some w := hfetch
    rwa [verdict, hfetch] at hfamily
  rw [lift_of_unowned (check_of_lift hresult) hfetch hunowned] at hresult
  obtain rfl := Except.ok.inj hresult
  simp only [verdict, accepts, hl]
  decide

/-- A scan counts every aligned word of the image once, by its verdict and by its family. -/
theorem scan_conserves (g : Guest) (image : Image) (r : ScanReport)
    (hscan : (g.scan image).exec.1 = .ok r) :
    r.words = image.bytes.size / 4 ∧
      r.words = (image.words g.info.order).length ∧
      (∀ i, image.base.toNat + 4 * i < UInt64.size →
        ((image.offset? (image.wordAddr i)).isSome ↔ i < r.words)) ∧
      r.words = r.lifted + r.refused ∧
      (r.families.map FamilyCount.words).sum + r.unassigned = r.words ∧
      r.refused = r.unassigned + (r.families.map FamilyCount.refused).sum ∧
      (∀ c ∈ r.families, c.words =
        (image.words g.info.order).countP fun w => w.family?.map Family.name = some c.family.name) ∧
      (r.families.map fun c => c.family.name).Pairwise (· < ·) ∧
      (∀ w ∈ image.words g.info.order, ∀ f, w.family? = some f →
        f ∈ r.families.map FamilyCount.family) ∧
      (∀ i < r.words, ∃ l, g.verdictAt? image (image.wordAddr i) = some (.ok l) ∧
        (g.accepts image (image.wordAddr i) = true ↔ l.next ≠ .stop .noDecode)) ∧
      r.lifted = (List.range r.words).countP fun i => g.accepts image (image.wordAddr i) := by
  have hscanned := scan_scanned hscan
  have htallies := hscanned.tallies
  have hwords : r.words = image.bytes.size / 4 := by
    rw [htallies.words_eq, List.length_map, List.length_range]
  have hverdicts : ∀ v ∈ (List.range (image.bytes.size / 4)).map (g.verdict image),
      v.family? = none → v.isRefused = true := by
    intro v hv hfamily
    obtain ⟨i, hi, rfl⟩ := List.mem_map.mp hv
    exact hscanned.isRefused (List.mem_range.mp hi) le_rfl hfamily
  refine ⟨hwords, ?_, fun i hi => ⟨fun hsome => ?_, fun hlt => ?_⟩, htallies.words_eq_add,
    htallies.sum_words_add, htallies.refused_eq_add hverdicts, fun c hc => ?_, ?_,
    fun w hw f hfamily => ?_, fun i hi => ?_, ?_⟩
  · rw [hwords, Image.length_words]
  · by_contra hge
    rw [hwords] at hge
    simp [Image.offset?_wordAddr_eq_none hi (Nat.le_of_not_lt hge)] at hsome
  · rw [hwords] at hlt
    exact Option.isSome_of_eq_some (hscanned.offset?_eq le_rfl hlt)
  · rw [← tally_verdicts g image c.family]
    exact congrArg FamilyCount.words (htallies.mem_families_iff.mp hc).1
  · exact List.pairwise_map.mpr htallies.sorted
  · obtain ⟨i, hi, hfetch⟩ := List.mem_filterMap.mp hw
    refine List.mem_map.mpr ⟨WordVerdict.tally f _, htallies.mem_families_iff.mpr ⟨rfl, ?_⟩, rfl⟩
    refine ⟨g.verdict image i, List.mem_map_of_mem hi, ?_⟩
    rw [verdict, hfetch]
    exact hfamily
  · obtain ⟨l, hl⟩ := hscanned.lifts i (hwords ▸ hi)
    refine ⟨l, hl, ?_⟩
    simp [accepts, hl, Lifted.isRefused]
  · rw [htallies.lifted_eq, List.countP_map, hwords]
    exact List.countP_congr fun i _ => by simp [verdict]

/-- A constant, a load with update that would overwrite its own address, a word that no family owns,
and a byte that is left over. -/
theorem scan_conserves_three :
    let g : Guest := { arch := .ppc64 }
    let image : Image := ⟨0x1000, ⟨#[0x38, 0x60, 0, 5, 0xE8, 0xA5, 0, 9, 0, 0, 0, 0, 0x38]⟩⟩
    let families : List FamilyCount := [⟨.arithmetic, 1, 0⟩, ⟨.loadStore, 1, 1⟩]
    (g.scan image).exec.1 = .ok ⟨3, 1, 2, 1, families⟩ ∧ (image.words .big).length = 3 ∧
      (∀ c ∈ families, c.words =
        (image.words .big).countP fun w => w.family?.map Family.name = some c.family.name) ∧
      (List.range 3).countP (fun i => g.accepts image (image.wordAddr i)) = 1 := by
  intro g image families
  have hreport : (g.scan image).exec.1.toOption = some ⟨3, 1, 2, 1, families⟩ := by
    decide +kernel
  cases hscan : (g.scan image).exec.1 with
  | error failure =>
      rw [hscan] at hreport
      contradiction
  | ok r =>
      rw [hscan] at hreport
      obtain rfl := Option.some.inj hreport
      obtain ⟨-, hwords, -, -, -, -, hfamilies, -, -, -, hlifted⟩ := scan_conserves g image _ hscan
      exact ⟨rfl, hwords.symm, hfamilies, hlifted.symm⟩

end Guest

end PowerLift
