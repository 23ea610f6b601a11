import PowerLift.Proofs.Lifting

/-!
# Where control goes

The answer to a lifted instruction says where control goes behind it, and so does its code. The two
agree: the instruction address is written where the answer says that the block stops, once and at
the end, and nowhere else.
-/

namespace PowerLift

/-- Whether a statement marks the start of an instruction. -/
def Stmt.isMark : Stmt → Bool
  | .mark _ _ _ => true
  | _ => false

/-- Code whose control flow is what the answer `l` to a word says. -/
structure Lifted.Reflects (l : Lifted) (env : Env) (w : Insn) (stmts : List Stmt) : Prop where
  marked : ∃ rest, stmts = .mark env.cia l.length 0 :: rest ∧ ∀ stmt ∈ rest, stmt.isMark = false
  stops_iff : (∃ kind, l.next = .stop kind) ↔
    ∃ e, .put (Layout.specialOffset env.arch .cia) e ∈ stmts
  last : ∀ before e after, stmts = before ++ .put (Layout.specialOffset env.arch .cia) e :: after →
    after = [] ∧ ∀ e', .put (Layout.specialOffset env.arch .cia) e' ∉ before
  follows : ∀ target, l.next = .resteer target → w.opcode = 18 ∧
    target = Branch.target env w ((BitVec.ofNat 26 (w.li24 * 4)).signExtend 64) ∧
    env.mayResteer target = true
  exits : ∀ guard kind target ipOffset, .exit guard kind target ipOffset ∈ stmts →
    ipOffset = Layout.specialOffset env.arch .cia ∧ target.ty = env.arch.wordTy

/-! ## Code before the instruction address is written -/

namespace Fits

variable {env : Env} {types : Array Ty} {ss : List Stmt}

theorem put_ne_cia {o : Nat} {e : Expr} (h : Fits env types ss (.put o e)) :
    o ≠ Layout.specialOffset env.arch .cia := by
  have hcia : Layout.locate env.arch (.special .cia) =
      .ok ⟨Layout.specialOffset env.arch .cia, env.arch.wordTy⟩ := rfl
  intro heq
  cases h with
  | put p _ hp _ =>
      cases hp with
      | slot s hs hp _ => exact hs (Layout.locate_injective hp hcia heq)
      | half i hp =>
          have hhalf := (Layout.fpr_le hp).2
          have hlow := (Layout.special_between env.arch .cia).low_le
          simp only at hlow
          omega

theorem exit_target {guard : Expr} {kind : JumpKind} {target : Const} {ipOffset : Nat}
    (h : Fits env types ss (.exit guard kind target ipOffset)) :
    ipOffset = Layout.specialOffset env.arch .cia ∧ target.ty = env.arch.wordTy := by
  cases h with
  | exit _ _ address hguard hfault => exact ⟨rfl, by rw [env.address_ty, Arch.wordTy_eq]⟩

end Fits

/-- The code of an instruction of `span` bytes that has not written the instruction address. -/
structure Onward (env : Env) (span : Nat) (ss : List Stmt) : Prop where
  marked : ∃ rest, ss = .mark env.cia span 0 :: rest ∧ ∀ stmt ∈ rest, stmt.isMark = false
  unwritten : ∀ e, .put (Layout.specialOffset env.arch .cia) e ∉ ss
  exits : ∀ guard kind target ipOffset, .exit guard kind target ipOffset ∈ ss →
    ipOffset = Layout.specialOffset env.arch .cia ∧ target.ty = env.arch.wordTy

theorem Stage.Sound.onward {P : Placement} {s : Stage} {pending : List Nat}
    (h : s.Sound P pending) : Onward P.env P.span s.stmts.toList := by
  have hfits : ∀ stmt ∈ s.stmts.toList, ∃ ss, Fits P.env s.types ss stmt := by
    intro stmt hstmt
    obtain ⟨i, hi⟩ := List.mem_iff_getElem?.mp hstmt
    exact ⟨_, h.code.fits_take hi⟩
  refine ⟨?_, fun e he => ?_, fun guard kind target ipOffset hexit => ?_⟩
  · obtain ⟨rest, hrest⟩ := List.head?_eq_some_iff.mp h.head
    refine ⟨rest, hrest, fun stmt hstmt => ?_⟩
    obtain ⟨i, hi⟩ := List.mem_iff_getElem?.mp hstmt
    -- A mark fits an empty list only, and the first mark stands before this statement.
    have hbehind := h.code.fits_take (show s.stmts.toList[i + 1]? = some stmt by simpa [hrest])
    cases hbehind with
    | mark len hss => simp [hrest] at hss
    | _ => rfl
  · obtain ⟨ss, hss⟩ := hfits _ he
    exact hss.put_ne_cia rfl
  · obtain ⟨ss, hss⟩ := hfits _ hexit
    exact hss.exit_target

namespace Onward

variable {env : Env} {span : Nat} {ss : List Stmt} {l : Lifted} {w : Insn}

/-- Renumbered temporaries change nothing. -/
theorem shift (h : Onward env span ss) (k : Nat) : Onward env span (ss.map (Stmt.shift k)) := by
  refine ⟨?_, fun e he => ?_, fun guard kind target ipOffset hexit => ?_⟩
  · obtain ⟨rest, rfl, hrest⟩ := h.marked
    refine ⟨rest.map (Stmt.shift k), rfl, fun stmt hstmt => ?_⟩
    obtain ⟨stmt, hmem, rfl⟩ := List.mem_map.mp hstmt
    have hmark := hrest stmt hmem
    cases stmt <;> first | rfl | contradiction
  · obtain ⟨stmt, hmem, heq⟩ := List.mem_map.mp he
    cases stmt with
    | put o value =>
        obtain ⟨rfl, -⟩ := Stmt.put.inj heq
        exact h.unwritten value hmem
    | _ => cases heq
  · obtain ⟨stmt, hmem, heq⟩ := List.mem_map.mp hexit
    cases stmt with
    | exit guard' kind' target' ipOffset' =>
        obtain ⟨-, -, rfl, rfl⟩ := Stmt.exit.inj heq
        exact h.exits _ _ _ _ hmem
    | _ => cases heq

/-- An answer that does not stop, or that follows a branch. -/
theorem reflects (h : Onward env span ss) (hlength : l.length = span)
    (hnext : ∀ kind, l.next ≠ .stop kind)
    (hfollows : ∀ target, l.next = .resteer target → w.opcode = 18 ∧
      target = Branch.target env w ((BitVec.ofNat 26 (w.li24 * 4)).signExtend 64) ∧
      env.mayResteer target = true) : l.Reflects env w ss := by
  refine ⟨hlength ▸ h.marked, ?_, ?_, hfollows, h.exits⟩
  · constructor
    · rintro ⟨kind, hkind⟩
      exact absurd hkind (hnext kind)
    · rintro ⟨e, he⟩
      exact absurd he (h.unwritten e)
  · rintro before e after rfl
    exact absurd (List.mem_append_right _ List.mem_cons_self) (h.unwritten e)

/-- An answer that stops, behind a write of the instruction address. -/
theorem reflects_stop (h : Onward env span ss) (hlength : l.length = span) {kind : JumpKind}
    (hnext : l.next = .stop kind) (e : Expr) :
    l.Reflects env w (ss ++ [.put (Layout.specialOffset env.arch .cia) e]) := by
  refine ⟨?_, ?_, ?_, ?_, ?_⟩
  · obtain ⟨rest, hss, hrest⟩ := h.marked
    refine ⟨rest ++ [.put _ e], by rw [hss, hlength]; rfl, ?_⟩
    exact List.forall_mem_append.mpr ⟨hrest, by simp [Stmt.isMark]⟩
  · exact ⟨fun _ => ⟨e, by simp⟩, fun _ => ⟨kind, hnext⟩⟩
  · intro before e' after heq
    rcases List.eq_nil_or_concat after with rfl | ⟨after, stmt, rfl⟩
    · have hss : ss = before := (List.append_inj' heq rfl).1
      exact ⟨rfl, fun e'' he'' => h.unwritten e'' (hss ▸ he'')⟩
    · -- A write before the end would be among the earlier statements.
      have hss : ss = before ++ .put (Layout.specialOffset env.arch .cia) e' :: after := by
        rw [List.concat_eq_append, ← List.cons_append, ← List.append_assoc] at heq
        exact (List.append_inj' heq rfl).1
      exact absurd (by simp [hss]) (h.unwritten e')
  · intro target htarget
    rw [hnext] at htarget
    contradiction
  · intro guard kind' target ipOffset hexit
    refine h.exits guard kind' target ipOffset ?_
    simpa using hexit

end Onward

/-! ## Whole instructions -/

theorem Ending.reflects {P : Placement} {q q' : Progress} (h : Ending P () () q q') {l : Lifted}
    (hlength : l.length = P.span) (hnext : l.next = q'.next) :
    l.Reflects P.env P.word q'.stage.stmts.toList := by
  cases h with
  | through s htogether hsound =>
      rw [htogether.right, Stage.on, Array.toList_map]
      refine (hsound.onward.shift _).reflects hlength ?_ ?_ <;>
        simp [hnext, htogether.right_next]
  | stop s kind e e' houter hsound he hkind hleft hright hnext₁ hnext₂ =>
      rw [hright, Stage.push_stmts, Stage.on, Array.toList_map]
      exact (hsound.onward.shift _).reflects_stop hlength (hnext.trans hnext₂) e'
  | followed s kind target houter hsound hkind hcut hmay hword hleft hright hnext₁ hnext₂ =>
      rw [hright, Stage.on, Array.toList_map]
      refine (hsound.onward.shift _).reflects hlength (by simp [hnext, hnext₂]) ?_
      intro target' htarget
      obtain rfl : target = target' := by simpa [hnext, hnext₂] using htarget
      exact ⟨hword.1, hword.2, hmay⟩

/-- Where control goes behind an accepted instruction, its answer and its code say alike. -/
theorem Guest.lift_reflects (g : Guest) (hinjector : g.injector = none) (code : ByteArray)
    (offset : Nat) (w : Insn) (hfetch : Insn.fetch? code offset g.info.order = some w)
    (cia blockStart : BitVec 64) (block : Block) (l : Lifted)
    (hresult : (g.lift code offset cia blockStart block).result = .ok l)
    (haccepted : l.next ≠ .stop .noDecode) :
    ∃ stmts : List Stmt,
      (g.lift code offset cia blockStart block).block.stmts.toList = block.stmts.toList ++ stmts ∧
      l.Reflects (g.env cia blockStart) w stmts := by
  have hcheck : g.check = .ok () := check_of_lift hresult
  have hanswers : Answers (placementAt hcheck code offset cia blockStart block w) (.empty 0) block
      _ (g.lift code offset cia blockStart block) := lift_answers hcheck hinjector hfetch rfl
  cases hanswers with
  | refused hleft hleft_block hright hright_block =>
      obtain rfl := Except.ok.inj (hright.symm.trans hresult)
      exact absurd rfl haccepted
  | lifted q q' hook hmarked hending hleft hleft_block hright hright_block =>
      obtain rfl := Except.ok.inj (hright.symm.trans hresult)
      refine ⟨q'.stage.stmts.toList, ?_, hending.reflects hmarked.symm rfl⟩
      rw [hright_block, Block.extended, Array.toList_append]

/-- A call to a fixed target that may be followed, and one that may not. -/
theorem Guest.lift_reflects_call :
    let code : ByteArray := ⟨#[0x48, 0, 0, 9]⟩
    let w : Insn := ⟨0x48000009⟩
    let free : Guest := { arch := .ppc64, mayResteer := fun _ => true }
    let bound : Guest := { arch := .ppc64 }
    (∃ l stmts, (free.lift code 0 0x1000 0x1000 (.empty 0)).result = .ok l ∧
      l.next = .resteer 0x1008 ∧
      (free.lift code 0 0x1000 0x1000 (.empty 0)).block.stmts.toList = [] ++ stmts ∧
      l.Reflects (free.env 0x1000 0x1000) w stmts) ∧
    ∃ l stmts, (bound.lift code 0 0x1000 0x1000 (.empty 0)).result = .ok l ∧
      l.next = .stop .call ∧
      (bound.lift code 0 0x1000 0x1000 (.empty 0)).block.stmts.toList = [] ++ stmts ∧
      l.Reflects (bound.env 0x1000 0x1000) w stmts := by
  intro code w free bound
  have hfree : (free.lift code 0 0x1000 0x1000 (.empty 0)).result =
      .ok ⟨4, .resteer 0x1008, none⟩ := by decide +kernel
  have hbound : (bound.lift code 0 0x1000 0x1000 (.empty 0)).result = .ok ⟨4, .stop .call, none⟩ :=
    by decide +kernel
  constructor
  · obtain ⟨stmts, hstmts, hreflects⟩ :=
      lift_reflects free rfl code 0 w (by decide) _ _ _ _ hfree (by decide)
    exact ⟨_, stmts, hfree, rfl, hstmts, hreflects⟩
  · obtain ⟨stmts, hstmts, hreflects⟩ :=
      lift_reflects bound rfl code 0 w (by decide) _ _ _ _ hbound (by decide)
    exact ⟨_, stmts, hbound, rfl, hstmts, hreflects⟩

end PowerLift
