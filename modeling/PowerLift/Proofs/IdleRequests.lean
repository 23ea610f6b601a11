import Mathlib.Data.List.Forall2
import PowerLift.Proofs.Requests
import PowerLift.Proofs.ShiftForms

/-!
# Requests that run as code

The words of a request are instructions like others. Its rotations take register 0 round and back to
where it was, and its disjunction is a move of a register to itself. Run word by word, a request
changes nothing.
-/

namespace PowerLift

open Point (Knows Next Before Quiet)

variable {M : Type} {I : Interp M} {env : Env} {c : Point M} {w : Insn} {g : Guest}

/-! ## Rotations behind each other -/

theorem rotateLeft_rotateLeft {n : Nat} (x : BitVec n) (j k : Nat) :
    (x.rotateLeft j).rotateLeft k = x.rotateLeft (j + k) := by
  apply BitVec.eq_of_getMsbD_eq
  intro i hi
  have hrest : (k + i) % n < n := Nat.mod_lt _ (Nat.zero_lt_of_lt hi)
  rw [BitVec.getMsbD_rotateLeft, BitVec.getMsbD_rotateLeft, BitVec.getMsbD_rotateLeft,
    decide_eq_true hrest, Bool.true_and, Nat.add_mod_mod, Nat.add_assoc]

theorem rotateLeft_of_dvd {n : Nat} (x : BitVec n) {k : Nat} (hk : n ∣ k) : x.rotateLeft k = x := by
  rw [← BitVec.rotateLeft_mod_eq_rotateLeft, Nat.mod_eq_zero_of_dvd hk, rotateLeft_zero]

namespace GuestState

variable {arch : Arch} {order : ByteOrder} {σ σ' : GuestState} {i : Nat}
  {x : BitVec arch.word.ty.bits}

theorem withOperand_withOperand (y : BitVec arch.word.ty.bits) :
    (σ.withOperand arch order i x).withOperand arch order i y = σ.withOperand arch order i y := by
  funext o
  unfold withOperand write
  split <;> rfl

theorem withOperand_operand : σ.withOperand arch order i (σ.operand arch order i) = σ :=
  write_read arch.word_ty_ne_i1

/-- A result without flags is all that is written. -/
theorem Shows.eq_withOperand (h : Shows arch order i { result := x } σ σ') :
    σ' = σ.withOperand arch order i x := by
  funext o
  by_cases ho : i * arch.wordBytes ≤ o ∧ o < i * arch.wordBytes + arch.wordBytes
  · have hsame : σ'.withOperand arch order i x = σ' := by
      have hresult : σ'.operand arch order i = x := h.result
      rw [← hresult, withOperand_operand]
    rw [← hsame]
    simp only [withOperand, write, wordBytes_eq, ho, and_self, if_true]
  · rw [withOperand_apply x ho]
    exact h.others o ho (by simp) (by simp) (by simp)

/-- The state with register 0 rotated. -/
def turned (arch : Arch) (order : ByteOrder) (σ : GuestState) (n : Nat) : GuestState :=
  σ.withOperand arch order 0 ((σ.operand arch order 0).rotateLeft n)

theorem turned_turned (j k : Nat) :
    (σ.turned arch order j).turned arch order k = σ.turned arch order (j + k) := by
  unfold turned
  rw [operand_withOperand, withOperand_withOperand, rotateLeft_rotateLeft]

/-- Whole turns change nothing. -/
theorem turned_of_dvd {n : Nat} (h : arch.word.ty.bits ∣ n) : σ.turned arch order n = σ := by
  rw [turned, rotateLeft_of_dvd _ h, withOperand_operand]

/-- Rotations behind each other add up. -/
theorem foldl_turned (amounts : List Nat) :
    amounts.foldl (turned arch order) σ = σ.turned arch order amounts.sum := by
  induction amounts generalizing σ with
  | nil => exact (turned_of_dvd (Nat.dvd_zero _)).symm
  | cons n amounts ih => rw [List.foldl_cons, ih, turned_turned, List.sum_cons]

end GuestState

/-! ## The words of a request -/

namespace Insn

/-- The word rotates register 0 by `n` and keeps all of it. -/
structure TurnsFirst (g : Guest) (n : Nat) (w : Insn) : Prop where
  turns : w.Turns g
  target : w.ra = 0
  source : w.rs = 0
  turned (s b a : BitVec g.arch.word.ty.bits) :
    w.turned? g.arch s b a = some { result := s.rotateLeft n }

theorem turnsFirst_word (harch : g.arch = .ppc32) (hopcode : w.opcode = 21)
    (hregisters : w.ra = 0 ∧ w.rs = 0) (hmask : Bits.ringMask 32 w.mb5 w.me5 = .allOnes 32)
    (hrecord : w.record = false) : w.TurnsFirst g w.sh5 where
  turns := .word (by simp [hopcode])
  target := hregisters.1
  source := hregisters.2
  turned := by
    have hturned : ∀ s b a : BitVec 32,
        w.turned? .ppc32 s b a = some { result := s.rotateLeft w.sh5 } := by
      intro s b a
      have hresult : underMask (Bits.ringMask 32 w.mb5 w.me5) ((s.setWidth 32).rotateLeft w.sh5) 0 =
          s.rotateLeft w.sh5 := by
        rw [hmask, underMask_zero, BitVec.setWidth_eq, BitVec.and_allOnes]
      simp only [turned?, hopcode, turnedWord, hrecord]
      exact congrArg (fun x => some (Computed.mk x none none false)) hresult
    rw [harch]
    exact hturned

theorem turnsFirst_doubleword (harch : g.arch = .ppc64) (hopcode : w.opcode = 30)
    (hregisters : w.ra = 0 ∧ w.rs = 0) (hform : w.xo3 = 0)
    (hmask : Bits.ringMask 64 w.mb6 63 = .allOnes 64) (hrecord : w.record = false) :
    w.TurnsFirst g w.sh6 where
  turns := .doubleword hopcode harch (.inl (by omega))
  target := hregisters.1
  source := hregisters.2
  turned := by
    have hturned : ∀ s b a : BitVec 64,
        w.turned? .ppc64 s b a = some { result := s.rotateLeft w.sh6 } := by
      intro s b a
      have hresult : underMask (Bits.ringMask 64 w.mb6 63) (s.rotateLeft w.sh6) 0 =
          s.rotateLeft w.sh6 := by
        rw [hmask, underMask_zero, BitVec.and_allOnes]
      simp only [turned?, hopcode, turnedDoubleword?, hform, hrecord]
      exact congrArg (fun x => some (Computed.mk x none none false)) hresult
    rw [harch]
    exact hturned

end Insn

namespace Hook

/-- By how much the words of an announcement rotate. -/
def turns : Arch → List Nat
  | .ppc32 => [3, 13, 29, 19]
  | .ppc64 => [3, 13, 61, 51]

/-- The rotations of an announcement make whole turns. -/
theorem bits_dvd_turns (arch : Arch) : arch.word.ty.bits ∣ (turns arch).sum := by
  cases arch <;> decide

theorem preamble_turns (g : Guest) :
    List.Forall₂ (fun word n => Insn.TurnsFirst g n ⟨word⟩) (preamble g.arch) (turns g.arch) := by
  cases harch : g.arch with
  | ppc32 =>
      have hword : ∀ word n, Insn.opcode ⟨word⟩ = 21 ∧ (Insn.ra ⟨word⟩ = 0 ∧ Insn.rs ⟨word⟩ = 0) ∧
          Bits.ringMask 32 (Insn.mb5 ⟨word⟩) (Insn.me5 ⟨word⟩) = .allOnes 32 ∧
          Insn.record ⟨word⟩ = false ∧ Insn.sh5 ⟨word⟩ = n → Insn.TurnsFirst g n ⟨word⟩ := by
        rintro word n ⟨hopcode, hregisters, hmask, hrecord, rfl⟩
        exact Insn.turnsFirst_word harch hopcode hregisters hmask hrecord
      exact .cons (hword _ _ (by decide)) (.cons (hword _ _ (by decide))
        (.cons (hword _ _ (by decide)) (.cons (hword _ _ (by decide)) .nil)))
  | ppc64 =>
      have hword : ∀ word n, Insn.opcode ⟨word⟩ = 30 ∧ (Insn.ra ⟨word⟩ = 0 ∧ Insn.rs ⟨word⟩ = 0) ∧
          Insn.xo3 ⟨word⟩ = 0 ∧ Bits.ringMask 64 (Insn.mb6 ⟨word⟩) 63 = .allOnes 64 ∧
          Insn.record ⟨word⟩ = false ∧ Insn.sh6 ⟨word⟩ = n → Insn.TurnsFirst g n ⟨word⟩ := by
        rintro word n ⟨hopcode, hregisters, hform, hmask, hrecord, rfl⟩
        exact Insn.turnsFirst_doubleword harch hopcode hregisters hform hmask hrecord
      exact .cons (hword _ _ (by decide)) (.cons (hword _ _ (by decide))
        (.cons (hword _ _ (by decide)) (.cons (hword _ _ (by decide)) .nil)))

end Hook

/-- A disjunction of a register with itself moves it. -/
theorem Logic.move_reaches (hI : I.Integral) (hlayout : env.layout = env.arch)
    (hopcode : w.opcode = 31) (hxo : w.xo10 = 444) (hsame : w.rs = w.rb) (hyield : w.rs ≠ 27) :
    Reaches env I c (lift w) fun _ c' => c'.state = c.state.after env.arch I.order w.ra
      { result := c.state.operand env.arch I.order w.rs, record := w.record } := by
  have hxo5 : w.xo5 ≠ 15 := by
    rw [w.xo5_eq, hxo]
    decide
  have hlift : lift w = registers w := by
    rw [lift, if_neg (by omega), if_pos hopcode, if_neg hxo5]
  rw [hlift]
  unfold registers
  apply Reaches.hold hlayout w.rd_lt
  intro s c₁ _ hquiet hs
  simp only [hxo]
  unfold twoRegisters
  apply Reaches.give (exec_getGpr hlayout w.rb_lt)
  rw [if_neg fun h => hyield h.2.1, if_pos ⟨hxo, hsame⟩]
  apply Reaches.listed
  intro c₂ _ hquiet'
  exact finish_reaches (S := fun _ => True) hI hlayout hs.up trivial
    (hquiet'.state_eq.trans hquiet.state_eq)

theorem Logic.move_computes (hI : I.Integral) (hopcode : w.opcode = 31) (hxo : w.xo10 = 444)
    (hsame : w.rs = w.rb) (hyield : w.rs ≠ 27) :
    g.ComputesInto w w.ra I fun arch σ out =>
      out = { result := σ.operand arch I.order w.rs, record := w.record } := by
  obtain ⟨route, hfound, hfamily, hgates⟩ : ∃ route, Route.ofXo10 444 = some route ∧
      route.family = .logic ∧ route.gates = [] :=
    ⟨_, rfl, rfl, rfl⟩
  have hroute : Route.find? w = some route := by rw [Route.find?_register hopcode, hxo, hfound]
  refine Guest.computesInto hroute ?_ w.ra_lt (fun order arch σ out =>
    out = { result := σ.operand arch order w.rs, record := w.record }) ?_ hI
  · rw [Route.closedGate?, hgates]
    rfl
  · intro N J env c hJ hlayout harch
    rw [hfamily]
    exact ⟨_, rfl, Logic.move_reaches hJ hlayout hopcode hxo hsame hyield⟩

/-! ## Pieces of code -/

/-- A position in code, with the block behind which its word is lifted. -/
structure Site where
  code : ByteArray
  offset : Nat
  cia : BitVec 64
  blockStart : BitVec 64
  block : Block

namespace Site

/-- What lifting the word at the position leaves behind. -/
def report (g : Guest) (site : Site) : Report :=
  g.lift site.code site.offset site.cia site.blockStart site.block

/-- The statements that the lifting adds. -/
def added (g : Guest) (site : Site) : List Stmt :=
  (site.report g).block.stmts.toList.drop site.block.stmts.toList.length

/-- The word stands at the position, and is not the beginning of a request. -/
structure Ordinary (g : Guest) (word : BitVec 32) (site : Site) : Prop where
  stands : Insn.StandAt g.info.order site.code site.offset [word]
  plain : ∀ v, ¬ Insn.StandAt g.info.order site.code site.offset (Hook.preamble g.arch ++ [v])

/-- The code of the positions, run one piece behind the other. -/
def runEach (g : Guest) (I : Interp M) : List Site → Machine M → Flow M
  | [], m => .behind m
  | site :: rest, m =>
      (runAll I (site.report g).block.types (site.added g) m).andThen (runEach g I rest)

/-- The word is accepted, and its code changes the guest state by `f` and memory not at all. -/
structure Takes (g : Guest) (I : Interp M) (site : Site) (f : GuestState → GuestState) :
    Prop where
  result : (site.report g).result = .ok ⟨4, .continue, none⟩
  runs : ∀ m, ∃ m', runAll I (site.report g).block.types (site.added g) m = .behind m' ∧
    m'.memory = m.memory ∧ m'.state = f m.state

variable {site : Site} {word : BitVec 32} {i : Nat} {f : GuestState → GuestState}

/-- A word that computes a register, without flags, does so wherever it stands. -/
theorem Ordinary.takes (h : site.Ordinary g word) (hcheck : g.check = .ok ())
    {P : (arch : Arch) → GuestState → Computed arch.word.ty.bits → Prop}
    (hcomputes : g.ComputesInto ⟨word⟩ i I P)
    (hf : ∀ σ out, P g.arch σ out →
      ∃ x, out = { result := x } ∧ f σ = σ.withOperand g.arch I.order i x) :
    site.Takes g I f := by
  obtain ⟨haccepts, hruns⟩ := hcomputes
  have hfetch := Insn.fetch?_eq_some_iff.mpr h.stands
  have hscan : Announced.scan site.code site.offset g.arch g.info.order = .absent :=
    Announced.scan_absent_iff.mpr h.plain
  have hresult : (site.report g).result = .ok ⟨4, .continue, none⟩ :=
    haccepts site.code site.offset site.cia site.blockStart site.block hcheck hfetch fun _ => hscan
  obtain ⟨types, ss, -, -, hstmts⟩ := Guest.lift_emitted (by simp [hscan]) hresult
  have hadded : site.added g = ss.map (Stmt.shift site.block.types.size) := by
    rw [added, report, hstmts, List.drop_left]
  have hcodes : g.Codes ⟨word⟩ ⟨4, .continue, none⟩ (site.added g) := by
    rw [hadded]
    exact .intro _ _ _ _ _ hfetch hresult rfl hstmts
  refine ⟨hresult, fun m => ?_⟩
  obtain ⟨-, hrun⟩ := hruns _ _ hcodes fun _ => rfl
  obtain ⟨out, m', hout, hm', hmemory, hshows⟩ := hrun (site.report g).block.types m
  obtain ⟨x, rfl, hx⟩ := hf m.state out hout
  exact ⟨m', hm', hmemory, hshows.eq_withOperand.trans hx.symm⟩

/-- Pieces behind each other do one behind the other what each does. -/
theorem runEach_takes {sites : List Site} {fs : List (GuestState → GuestState)}
    (h : List.Forall₂ (fun site f => site.Takes g I f) sites fs) (m : Machine M) :
    ∃ m', runEach g I sites m = .behind m' ∧ m'.memory = m.memory ∧
      m'.state = fs.foldl (fun σ f => f σ) m.state := by
  induction h generalizing m with
  | nil => exact ⟨m, rfl, rfl, rfl⟩
  | @cons site f sites fs hfirst hrest ih =>
      obtain ⟨m₁, hrun₁, hmemory₁, hstate₁⟩ := hfirst.runs m
      obtain ⟨m₂, hrun₂, hmemory₂, hstate₂⟩ := ih m₁
      refine ⟨m₂, ?_, hmemory₂.trans hmemory₁, ?_⟩
      · rw [runEach, hrun₁]
        exact hrun₂
      · rw [hstate₂, hstate₁]
        rfl

theorem result_of_takes {sites : List Site} {fs : List (GuestState → GuestState)}
    (h : List.Forall₂ (fun site f => site.Takes g I f) sites fs) :
    ∀ site ∈ sites, (site.report g).result = .ok ⟨4, .continue, none⟩ := by
  induction h with
  | nil => exact List.forall_mem_nil _
  | cons hfirst hrest ih => exact List.forall_mem_cons.mpr ⟨hfirst.result, ih⟩

end Site

/-! ## Requests word by word -/

/-- Wherever the word stands as an ordinary instruction, it changes the guest state by `f`. -/
def Guest.Acts (g : Guest) (I : Interp M) (word : BitVec 32) (f : GuestState → GuestState) : Prop :=
  ∀ site : Site, site.Ordinary g word → site.Takes g I f

theorem Site.takes_of_acts {words : List (BitVec 32)} {fs : List (GuestState → GuestState)}
    {sites : List Site} (hacts : List.Forall₂ (g.Acts I) words fs)
    (hsites : List.Forall₂ (fun word site => site.Ordinary g word) words sites) :
    List.Forall₂ (fun site f => site.Takes g I f) sites fs := by
  induction hacts generalizing sites with
  | nil =>
      cases hsites
      exact .nil
  | cons hfirst hrest ih =>
      cases hsites with
      | cons hsite hsites => exact .cons (hfirst _ hsite) (ih hsites)

section

variable (hcheck : g.check = .ok ()) (hI : I.Integral)

include hcheck hI

theorem Insn.TurnsFirst.acts {n : Nat} {word : BitVec 32} (h : Insn.TurnsFirst g n ⟨word⟩) :
    g.Acts I word fun σ => σ.turned g.arch I.order n := by
  intro site hordinary
  apply hordinary.takes hcheck (h.turns.computesInto hI)
  intro σ out hout
  rw [h.turned] at hout
  refine ⟨_, (Option.some.inj hout).symm, ?_⟩
  rw [h.target, h.source]
  rfl

/-- The word that names a request moves a register to itself. -/
theorem Hook.word_acts (request : Hook) : g.Acts I request.word id := by
  have hword : Insn.opcode ⟨request.word⟩ = 31 ∧ Insn.xo10 ⟨request.word⟩ = 444 ∧
      Insn.rs ⟨request.word⟩ = Insn.rb ⟨request.word⟩ ∧ Insn.rs ⟨request.word⟩ ≠ 27 ∧
      Insn.ra ⟨request.word⟩ = Insn.rs ⟨request.word⟩ ∧ Insn.record ⟨request.word⟩ = false := by
    cases request <;> decide
  obtain ⟨hopcode, hxo, hsame, hyield, htarget, hrecord⟩ := hword
  intro site hordinary
  apply hordinary.takes hcheck (Logic.move_computes hI hopcode hxo hsame hyield)
  rintro σ out rfl
  refine ⟨_, by rw [hrecord], ?_⟩
  rw [htarget, GuestState.withOperand_operand]
  rfl

theorem Hook.acts (request : Hook) :
    List.Forall₂ (g.Acts I) (preamble g.arch ++ [request.word])
      ((turns g.arch).map (fun n σ => σ.turned g.arch I.order n) ++ [id]) := by
  apply List.rel_append
  · rw [List.forall₂_map_right_iff]
    exact (preamble_turns g).imp fun word n h => h.acts hcheck hI
  · exact .cons (word_acts hcheck hI request) .nil

end

/-- A request is idle as ordinary code. Where each of its words stands for itself, whatever its
address and the block before it, it is accepted as an instruction, and the five pieces of code, one
behind the other, take every machine through to one with the same guest state and memory. -/
theorem Guest.requests_idle (g : Guest) (hcheck : g.check = .ok ()) (hI : I.Integral)
    (request : Hook) (sites : List Site)
    (hsites : List.Forall₂ (fun word site => site.Ordinary g word)
      (Hook.preamble g.arch ++ [request.word]) sites) :
    (∀ site ∈ sites, (site.report g).result = .ok ⟨4, .continue, none⟩) ∧
      ∀ m, ∃ m', Site.runEach g I sites m = .behind m' ∧ m'.memory = m.memory ∧
        m'.state = m.state := by
  have htakes := Site.takes_of_acts (Hook.acts hcheck hI request) hsites
  refine ⟨Site.result_of_takes htakes, fun m => ?_⟩
  obtain ⟨m', hrun, hmemory, hstate⟩ := Site.runEach_takes htakes m
  refine ⟨m', hrun, hmemory, hstate.trans ?_⟩
  rw [List.foldl_append, List.foldl_map]
  exact (GuestState.foldl_turned _).trans (GuestState.turned_of_dvd (Hook.bits_dvd_turns g.arch))

/-- A word of its own, and nothing behind it. -/
def Site.alone (word : BitVec 32) : Site where
  code := ⟨(Insn.image .big word).toArray⟩
  offset := 0
  cia := 0x1000
  blockStart := 0x1000
  block := .empty 0

theorem Site.alone_ordinary {g : Guest} (horder : g.info.order = .big) (word : BitVec 32) :
    (Site.alone word).Ordinary g word where
  stands := by
    rw [horder, Insn.StandAt, List.flatMap_singleton]
    exact List.prefix_rfl
  plain v hstand := by
    have hlength : 4 * (Hook.preamble g.arch ++ [v]).length ≤ 4 - 0 := hstand.size_le
    rw [List.length_append, List.length_singleton] at hlength
    cases harch : g.arch <;> rw [harch] at hlength <;> simp [Hook.preamble] at hlength

/-- The request for the table pointer, each word alone, on the variant that does not serve it. -/
theorem Guest.requests_idle_alone :
    ∃ m', Site.runEach { arch := .ppc32 } (.integral .big)
      ((Hook.preamble .ppc32 ++ [Hook.redirectedTable.word]).map .alone) turning = .behind m' ∧
        m'.state = turning.state := by
  obtain ⟨-, hruns⟩ := Guest.requests_idle { arch := .ppc32 } rfl (Interp.integral_integral .big)
    .redirectedTable ((Hook.preamble .ppc32 ++ [Hook.redirectedTable.word]).map .alone) (by
      rw [List.forall₂_map_right_iff, List.forall₂_same]
      exact fun word _ => Site.alone_ordinary rfl word)
  obtain ⟨m', hrun, -, hstate⟩ := hruns turning
  exact ⟨m', hrun, hstate⟩

end PowerLift
