import Mathlib.Data.List.Chain
import PowerLift.Proofs.ControlFlow
import PowerLift.Proofs.Formation

/-!
# The instructions of a formed block

A block is formed from instructions that follow each other, each at the address where decoding goes
on behind the one before. The block marks them all, but for a refused word, which is its last. Where
none of them ends the block, it goes on at the address behind them; a branch is never followed for
nothing.
-/

namespace PowerLift

/-! ## Marks -/

/-- The address and the length of the instruction that a statement marks. -/
def Stmt.mark? : Stmt → Option (BitVec 64 × Nat)
  | .mark addr len _ => some (addr, len)
  | _ => none

theorem Stmt.mark?_eq_none {stmt : Stmt} (h : stmt.isMark = false) : stmt.mark? = none := by
  cases stmt <;> first | rfl | contradiction

namespace Block

/-- The addresses and lengths of the instructions that a block marks, in order. -/
def marks (b : Block) : List (BitVec 64 × Nat) := b.stmts.toList.filterMap Stmt.mark?

theorem marks_stopped (b : Block) (env : Env) : (b.stopped env).marks = b.marks := by
  rw [marks, stopped, Array.toList_push, List.filterMap_append]
  exact List.append_nil _

theorem marks_extended (b : Block) (s : Stage) :
    (b.extended s).marks = b.marks ++ s.stmts.toList.filterMap Stmt.mark? := by
  rw [marks, extended, Array.toList_append, List.filterMap_append, marks]

end Block

/-- The code of an accepted instruction marks it once. -/
theorem Lifted.Reflects.marks_eq {l : Lifted} {env : Env} {w : Insn} {stmts : List Stmt}
    (h : l.Reflects env w stmts) : stmts.filterMap Stmt.mark? = [(env.cia, l.length)] := by
  obtain ⟨rest, rfl, hrest⟩ := h.marked
  have hnone : rest.filterMap Stmt.mark? = [] :=
    List.filterMap_eq_nil_iff.mpr fun stmt hstmt => Stmt.mark?_eq_none (hrest stmt hstmt)
  rw [List.filterMap_cons, Stmt.mark?, hnone]

theorem Lifted.isRefused_iff {l : Lifted} : l.isRefused = true ↔ l.next = .stop .noDecode :=
  beq_iff_eq

/-- An accepted instruction is marked, a refused word is not. -/
theorem Answers.marks_eq {P : Placement} {single b : Block} {left right : Report} {l : Lifted}
    (h : Answers P single b left right) (hresult : right.result = .ok l) :
    right.block.marks = b.marks ++ if l.isRefused then [] else [(P.env.cia, l.length)] := by
  cases h with
  | refused hleft hleft_block hright hright_block =>
      obtain rfl := Except.ok.inj (hright.symm.trans hresult)
      rw [hright_block, Block.marks_stopped]
      exact (List.append_nil _).symm
  | lifted q q' hook hmarked hending hleft hleft_block hright hright_block =>
      obtain rfl := Except.ok.inj (hright.symm.trans hresult)
      have haccepted : ¬ Lifted.isRefused ⟨Hook.span hook, q'.next, hook⟩ = true :=
        mt Lifted.isRefused_iff.mp hending.next_ne
      rw [hright_block, Block.marks_extended, if_neg haccepted]
      exact congrArg _ (hending.reflects hmarked.symm rfl).marks_eq

/-! ## Instructions that follow each other -/

/-- An instruction of a block: its address, and what lifting it amounted to. -/
structure Visited where
  addr : BitVec 64
  lifted : Lifted

namespace Visited

/-- The mark of an instruction. -/
def mark (v : Visited) : BitVec 64 × Nat := (v.addr, v.lifted.length)

/-- Where decoding goes on behind an instruction, if it does not end the block. -/
def onward? (v : Visited) : Option (BitVec 64) :=
  match v.lifted.next with
  | .continue => some (v.addr + .ofNat 64 v.lifted.length)
  | .resteer target => some target
  | .stop _ => none

/-- Where decoding goes on behind the instructions from `addr` on, if none of them ends the
block. -/
def resume? (addr : BitVec 64) (course : List Visited) : Option (BitVec 64) :=
  match course.getLast? with
  | none => some addr
  | some v => v.onward?

theorem resume?_cons {v : Visited} {next : BitVec 64} (h : v.onward? = some next) (addr : BitVec 64)
    (rest : List Visited) : resume? addr (v :: rest) = resume? next rest := by
  cases rest with
  | nil => exact h
  | cons v' rest => rw [resume?, List.getLast?_cons_cons, resume?, List.getLast?_cons]

end Visited

namespace Guest

/-- Lifting the instruction, at its address in the image and behind some code of the block, amounts
to what is told; branches are followed as long as `budget` more instructions allow it. -/
def LiftsTo (g : Guest) (image : Image) (start : BitVec 64) (budget : Nat) (v : Visited) : Prop :=
  ∃ block report, g.step image v.addr start (follows image budget) block = some report ∧
    report.result = .ok v.lifted

/-- How a block ends behind instructions from `addr` on, of which it may have `budget`. -/
inductive Closes (g : Guest) (image : Image) (addr : BitVec 64) (budget : Nat)
    (course : List Visited) (b : Block) : Prop where
  /-- The limit is reached, or no whole word stands there. -/
  | fixed (behind : BitVec 64) (hresume : Visited.resume? addr course = some behind)
      (hlast : ∀ v ∈ course.getLast?, v.lifted.next = .continue)
      (hlimit : course.length = budget ∨ image.offset? behind = none)
      (hkind : b.kind = .boring)
      (hnext : b.next =
        some (.const (if g.arch.is64 then .u64 behind else .u32 (behind.setWidth 32))))
  | stopped (v : Visited) (hlast : course.getLast? = some v) (hstop : v.lifted.next = .stop b.kind)
      (hnext : b.next = some (.get b.ipOffset g.arch.wordTy))

/-- The instructions that a block has marked when it ends. -/
def marked (b : Block) (course : List Visited) : List Visited :=
  if b.kind = .noDecode then course.dropLast else course

/-- Forming adds the instructions of `course` to a block, from `addr` on, and ends it. -/
structure Adds (g : Guest) (image : Image) (start : BitVec 64) (budget : Nat) (addr : BitVec 64)
    (formed formed' : Formed) (course : List Visited) : Prop where
  insns_eq : formed'.insns = formed.insns + course.length
  length_le : course.length ≤ budget
  head_eq : ∀ v ∈ course.head?, v.addr = addr
  chain : course.IsChain fun v v' => v.onward? = some v'.addr
  lifted : ∀ i v, course[i]? = some v → g.LiftsTo image start (budget - (i + 1)) v
  marks_eq : formed'.block.marks =
    formed.block.marks ++ (marked formed'.block course).map Visited.mark
  closes : g.Closes image addr budget course formed'.block
  starts : 0 < budget → (image.offset? addr).isSome → course ≠ []

variable {g : Guest} {image : Image} {start addr : BitVec 64} {budget : Nat}
  {formed formed' : Formed} {course : List Visited} {b : Block} {report : Report} {l : Lifted}

open Session (Returns returns_pure)

theorem step_marks (hinjector : g.injector = none) {follow : BitVec 64 → Bool}
    (hstep : g.step image addr start follow b = some report) (hresult : report.result = .ok l) :
    report.block.marks = b.marks ++ if l.isRefused then [] else [(addr, l.length)] := by
  obtain ⟨offset, hcheck, w, left, -, hanswers⟩ := step_answers hinjector hstep hresult
  exact hanswers.marks_eq hresult

namespace Closes

/-- A refused word is the last instruction of its block. -/
theorem ne_nil (h : g.Closes image addr budget course b) (hkind : b.kind = .noDecode) :
    course ≠ [] := by
  cases h with
  | fixed behind hresume hlast hlimit hboring hnext => simp [hboring] at hkind
  | stopped v hlast hstop hnext =>
      rintro rfl
      simp at hlast

/-- One more instruction in front. -/
theorem cons {v : Visited} {next : BitVec 64} (hnext : v.onward? = some next)
    (hfollowed : course = [] → v.lifted.next = .continue)
    (h : g.Closes image next budget course b) :
    g.Closes image addr (budget + 1) (v :: course) b := by
  cases h with
  | fixed behind hresume hlast hlimit hkind htarget =>
      refine .fixed behind ((Visited.resume?_cons hnext addr course).trans hresume) ?_ ?_ hkind
        htarget
      · intro v' hv'
        cases course with
        | nil =>
            obtain rfl : v = v' := by simpa using hv'
            exact hfollowed rfl
        | cons v'' rest => exact hlast v' (by rwa [List.getLast?_cons_cons] at hv')
      · exact hlimit.imp_left (congrArg (· + 1))
  | stopped v' hlast hstop htarget =>
      refine .stopped v' ?_ hstop htarget
      rw [List.getLast?_cons, hlast, Option.getD_some]

end Closes

namespace Adds

/-- A block that ends where it stands. -/
theorem nil (hlimit : 0 < budget → image.offset? addr = none) :
    Adds g image start budget addr formed { formed with block := g.endAt formed.block addr }
      [] where
  insns_eq := rfl
  length_le := Nat.zero_le _
  head_eq := by simp
  chain := .nil
  lifted := by simp
  marks_eq := by simp [marked, endAt, Block.marks]
  closes := by
    refine .fixed addr rfl (by simp) ?_ rfl rfl
    exact (Nat.eq_zero_or_pos budget).imp Eq.symm hlimit
  starts hpos hinside := by simp [hlimit hpos] at hinside

/-- An instruction that ends the block. -/
theorem last (hinjector : g.injector = none)
    (hstep : g.step image addr start (follows image budget) formed.block = some report)
    (hresult : report.result = .ok l) {kind : JumpKind} (hnext : l.next = .stop kind) :
    Adds g image start (budget + 1) addr formed ⟨{ report.block with
      next := some (.get report.block.ipOffset g.arch.wordTy), kind }, formed.insns + 1⟩
      [⟨addr, l⟩] where
  insns_eq := rfl
  length_le := Nat.le_add_left 1 budget
  head_eq := by simp
  chain := .singleton _
  lifted i v hv := by
    obtain ⟨rfl, rfl⟩ : i = 0 ∧ v = ⟨addr, l⟩ := by
      cases i <;> simp_all
    exact ⟨_, _, hstep, hresult⟩
  marks_eq := by
    change report.block.marks = _
    rw [step_marks hinjector hstep hresult, marked]
    -- The block's kind tells whether the word was refused.
    by_cases hkind : kind = .noDecode
    · have hrefused : l.isRefused = true := Lifted.isRefused_iff.mpr (hnext.trans (by rw [hkind]))
      simp [hrefused, hkind]
    · have hrefused : l.isRefused = false := by simp [Lifted.isRefused, hnext, hkind]
      simp [hrefused, hkind, Visited.mark]
  closes := .stopped ⟨addr, l⟩ rfl hnext rfl
  starts _ _ := by simp

/-- An instruction behind which the block goes on. -/
theorem cons (hinjector : g.injector = none)
    (hstep : g.step image addr start (follows image budget) formed.block = some report)
    (hresult : report.result = .ok l) {next : BitVec 64}
    (hnext : Visited.onward? ⟨addr, l⟩ = some next)
    (hfollowed : course = [] → l.next = .continue)
    (h : Adds g image start budget next ⟨report.block, formed.insns + 1⟩ formed' course) :
    Adds g image start (budget + 1) addr formed formed' (⟨addr, l⟩ :: course) where
  insns_eq := h.insns_eq.trans (Nat.add_right_comm formed.insns 1 course.length)
  length_le := Nat.succ_le_succ h.length_le
  head_eq := by simp
  chain := by
    refine List.isChain_cons.mpr ⟨fun v hv => ?_, h.chain⟩
    rw [hnext, h.head_eq v hv]
  lifted i v hv := by
    cases i with
    | zero =>
        obtain rfl := Option.some.inj hv
        exact ⟨_, _, hstep, hresult⟩
    | succ i =>
        rw [Nat.add_sub_add_right]
        exact h.lifted i v hv
  marks_eq := by
    have hrefused : l.isRefused = false := by
      rw [Bool.eq_false_iff, ne_eq, Lifted.isRefused_iff]
      intro hstop
      simp [Visited.onward?, hstop] at hnext
    have hmarked : marked formed'.block (⟨addr, l⟩ :: course) =
        ⟨addr, l⟩ :: marked formed'.block course := by
      unfold marked
      split
      next hkind => exact List.dropLast_cons_of_ne_nil (h.closes.ne_nil hkind)
      next => rfl
    rw [h.marks_eq, step_marks hinjector hstep hresult, hrefused, hmarked]
    simp [Visited.mark]
  closes := h.closes.cons hnext hfollowed
  starts _ _ := by simp

end Adds

/-- Forming a block adds instructions that follow each other. -/
theorem extend_adds (hinjector : g.injector = none)
    (h : Returns (g.extend image start budget addr formed) formed') :
    ∃ course, Adds g image start budget addr formed formed' course := by
  -- On the instructions that the block may still take. A branch is followed only where one more
  -- instruction is sure to come, so that the course behind it is not empty.
  induction budget generalizing addr formed with
  | zero =>
      obtain rfl := returns_pure h
      exact ⟨[], .nil (by simp)⟩
  | succ budget ih =>
      cases extend_extends h with
      | outside haddr hformed =>
          subst hformed
          exact ⟨[], .nil fun _ => haddr⟩
      | onward report l hstep hresult hnext hrest =>
          obtain ⟨course, hrest⟩ := ih hrest
          have honward : Visited.onward? ⟨addr, l⟩ = some (addr + .ofNat 64 l.length) := by
            rw [Visited.onward?, hnext]
          exact ⟨_, .cons hinjector hstep hresult honward (fun _ => hnext) hrest⟩
      | followed report l target hstep hresult hnext hrest =>
          obtain ⟨course, hrest⟩ := ih hrest
          have honward : Visited.onward? ⟨addr, l⟩ = some target := by rw [Visited.onward?, hnext]
          obtain ⟨_, _, _, _, _, _, hfollow, _⟩ := step_inStep hinjector hstep hresult
          have hinside : 0 < budget ∧ (image.offset? target).isSome := by
            simpa [follows] using hfollow target hnext
          have hgoes : course ≠ [] := hrest.starts hinside.1 hinside.2
          exact ⟨_, .cons hinjector hstep hresult honward (fun hnil => absurd hnil hgoes) hrest⟩
      | stopped report l kind hstep hresult hnext hformed =>
          subst hformed
          exact ⟨_, .last hinjector hstep hresult hnext⟩

/-- The kind of a block tells whether its last word was refused. -/
theorem Closes.noDecode_iff (h : g.Closes image addr budget course b) :
    b.kind = .noDecode ↔ ∃ v ∈ course.getLast?, v.lifted.isRefused = true := by
  simp only [Lifted.isRefused_iff]
  cases h with
  | fixed behind hresume hlast hlimit hkind hnext =>
      refine ⟨fun h => by simp [hkind] at h, fun ⟨v, hv, hrefused⟩ => ?_⟩
      simp [hlast v hv] at hrefused
  | stopped v hlast hstop hnext => simp [hlast, hstop]

/-- A formed block accounts for every instruction that was decoded: it counts them, within its
limit, and marks them in order, each with the address where decoding had gone on; and it goes on
where decoding would have. -/
theorem form_accounts (g : Guest) (hinjector : g.injector = none) (image : Image)
    (start : BitVec 64) (maxInsns : Nat) (formed : Formed)
    (hform : (g.form image start maxInsns).exec.1 = .ok formed) :
    ∃ course : List Visited,
      formed.insns = course.length ∧ formed.insns ≤ maxInsns ∧
      (∀ v ∈ course.head?, v.addr = start) ∧
      course.IsChain (fun v v' => v.onward? = some v'.addr) ∧
      (∀ i v, course[i]? = some v → (image.offset? v.addr).isSome ∧
        g.LiftsTo image start (maxInsns - (i + 1)) v) ∧
      formed.block.marks = (if formed.block.kind = .noDecode then course.dropLast
        else course).map (fun v => (v.addr, v.lifted.length)) ∧
      formed.block.marks.length = formed.insns - (if formed.block.kind = .noDecode then 1 else 0) ∧
      (formed.block.kind = .noDecode ↔ ∃ v ∈ course.getLast?, v.lifted.isRefused = true) ∧
      formed.block.next.isSome ∧
      (∀ v ∈ course.getLast?, ∀ kind, v.lifted.next = .stop kind → formed.block.kind = kind ∧
        formed.block.next = some (.get formed.block.ipOffset g.arch.wordTy)) ∧
      ((∀ v ∈ course.getLast?, ∀ kind, v.lifted.next ≠ .stop kind) →
        (∀ v ∈ course.getLast?, v.lifted.next = .continue) ∧
        ∃ behind, Visited.resume? start course = some behind ∧
          (course.length = maxInsns ∨ image.offset? behind = none) ∧
          formed.block.kind = .boring ∧ formed.block.next = some (.const
            (if g.arch.is64 then .u64 behind else .u32 (behind.setWidth 32)))) ∧
      (1 ≤ maxInsns → (1 ≤ formed.insns ↔ (image.offset? start).isSome)) := by
  have hreturns : Returns (g.form image start maxInsns) formed := ⟨{}, _, Prod.ext hform rfl⟩
  obtain ⟨course, hadds⟩ := extend_adds hinjector hreturns
  have hinsns : formed.insns = course.length := by simpa using hadds.insns_eq
  have hmarks : formed.block.marks = (marked formed.block course).map Visited.mark := by
    simpa [emptyBlock, Block.empty, Block.marks] using hadds.marks_eq
  have hinside : ∀ (i : Nat) (v : Visited), course[i]? = some v →
      (image.offset? v.addr).isSome := by
    intro i v hv
    obtain ⟨_, _, hstep, -⟩ := hadds.lifted i v hv
    obtain ⟨offset, hoffset, -⟩ := Option.map_eq_some_iff.mp hstep
    exact Option.isSome_of_eq_some hoffset
  refine ⟨course, hinsns, hinsns ▸ hadds.length_le, hadds.head_eq, hadds.chain,
    fun i v hv => ⟨hinside i v hv, hadds.lifted i v hv⟩, hmarks, ?_, hadds.closes.noDecode_iff,
    ?_, ?_, ?_, fun hpos => ⟨fun hsome => ?_, fun hstart => ?_⟩⟩
  · rw [hmarks, List.length_map, hinsns, marked]
    split
    · exact List.length_dropLast
    · rfl
  · cases hadds.closes with
    | fixed behind hresume hlast hlimit hkind hnext => simp [hnext]
    | stopped v hlast hstop hnext => simp [hnext]
  · intro v hv kind hkind
    cases hadds.closes with
    | fixed behind hresume hlast hlimit hboring hnext => simp [hlast v hv] at hkind
    | stopped v' hlast hstop hnext =>
        obtain rfl : v' = v := Option.some.inj (hlast.symm.trans hv)
        exact ⟨Continuation.stop.inj (hstop.symm.trans hkind), hnext⟩
  · intro honward
    cases hadds.closes with
    | fixed behind hresume hlast hlimit hkind hnext =>
        exact ⟨hlast, behind, hresume, hlimit, hkind, hnext⟩
    | stopped v hlast hstop hnext => exact absurd hstop (honward v hlast _)
  · obtain ⟨v, hv⟩ : ∃ v, course[0]? = some v :=
      ⟨_, List.getElem?_eq_getElem (by omega)⟩
    have hfirst : v.addr = start := hadds.head_eq v (by rwa [List.head?_eq_getElem?])
    exact hfirst ▸ hinside 0 v hv
  · rw [hinsns]
    exact List.length_pos_of_ne_nil (hadds.starts hpos hstart)

/-- A sum and a branch back to it, up to the third instruction. -/
theorem form_accounts_loop :
    let image : Image := ⟨0x1000, ⟨#[0x38, 0x63, 0, 1, 0x4B, 0xFF, 0xFF, 0xFC]⟩⟩
    ∃ formed, (form { arch := .ppc64 } image 0x1000 3).exec.1 = .ok formed ∧ formed.insns = 3 ∧
      ∃ course : List Visited, course.length = 3 ∧
        (∀ v ∈ course.head?, v.addr = 0x1000) ∧
        course.IsChain (fun v v' => v.onward? = some v'.addr) ∧
        formed.block.marks = course.map (fun v => (v.addr, v.lifted.length)) ∧
        (∀ v ∈ course.getLast?, v.lifted.next = .continue) ∧
        Visited.resume? 0x1000 course = some 0x1004 ∧
        formed.block.next = some (.const (.u64 0x1004)) := by
  intro image
  have hend : (form { arch := .ppc64 } image 0x1000 3).exec.1.toOption.map (fun formed =>
      (formed.insns, formed.block.kind, formed.block.next.bind Expr.asConst?)) =
        some (3, .boring, some (.u64 0x1004)) := by decide +kernel
  cases hform : (form { arch := .ppc64 } image 0x1000 3).exec.1 with
  | error failure => rw [hform] at hend; contradiction
  | ok formed =>
  rw [hform] at hend
  obtain ⟨hinsns, hkind, hnext⟩ : formed.insns = 3 ∧ formed.block.kind = .boring ∧
      formed.block.next.bind Expr.asConst? = some (.u64 0x1004) := by
    simpa [Except.toOption] using hend
  obtain ⟨course, hlength, -, hhead, hchain, -, hmarks, -, -, -, hstopped, honward, -⟩ :=
    form_accounts { arch := .ppc64 } rfl image 0x1000 3 formed hform
  obtain ⟨hlast, behind, hresume, -, -, htarget⟩ := honward fun v hv kind hstop => by
    simp [(hstopped v hv kind hstop).2, Expr.asConst?] at hnext
  obtain rfl : behind = 0x1004 := by simpa [htarget, Expr.asConst?, Arch.is64] using hnext
  refine ⟨formed, rfl, hinsns, course, hlength.symm.trans hinsns, hhead, hchain, ?_, hlast,
    hresume, htarget⟩
  simpa [hkind] using hmarks

end Guest

end PowerLift
