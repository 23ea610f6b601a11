import PowerLift.Guest
import PowerLift.Proofs.Family.Control
import PowerLift.Proofs.Family.Floating
import PowerLift.Proofs.Family.Integer
import PowerLift.Proofs.Family.Storage
import PowerLift.Proofs.Family.Vector
import PowerLift.Proofs.Family.VectorScalar

/-!
# Whole instructions

Every family ends as a translator may, and so does every word: the gates of its route are the only
place where the lifting alone may stop before the lifting behind a block. Requests end likewise.
-/

namespace PowerLift

variable {P : Placement} {s : Stage}

theorem Family.lift_ends (hquiet : s.Quiet) (f : Family) :
    Ends P s (f.lift P.word) (f.lift P.word) := by
  cases f with
  | arithmetic => exact Arithmetic.lift_ends
  | comparison => exact Comparison.lift_ends
  | logic => exact Logic.lift_ends
  | rotate => exact Rotate.lift_ends
  | loadStore => exact LoadStore.lift_ends
  | multiple => exact Multiple.lift_ends
  | branch => exact Branch.lift_ends
  | conditionRegister => exact ConditionRegister.lift_ends
  | trap => exact Trap.lift_ends hquiet
  | reservation => exact Reservation.lift_ends hquiet
  | system => exact System.lift_ends
  | transaction => exact Transaction.lift_ends
  | floatingPoint => exact FloatingPoint.lift_ends
  | decimalFloat => exact DecimalFloat.lift_ends
  | vectorInteger => exact VectorInteger.lift_ends
  | vectorFloat => exact VectorFloat.lift_ends
  | vectorScalarMemory => exact VectorScalarMemory.lift_ends
  | vectorScalar => exact VectorScalar.lift_ends
  | cipher => exact Cipher.lift_ends

/-- Further extensions close no gate. -/
theorem Gate.isOpen_of_within {arch : Arch} {f f' : Features} (hle : f.Within f') (gate : Gate)
    (h : gate.isOpen arch f = true) : gate.isOpen arch f' = true := by
  cases gate with
  | fp => exact hle.fp h
  | altivec => exact hle.altivec h
  | fx => exact hle.fx h
  | gx => exact hle.gx h
  | vsx => exact hle.vsx h
  | dfp => exact hle.dfp h
  | isa207 => exact hle.isa207 h
  | isa30 => exact hle.isa30 h
  | mode64 => exact h

theorem Route.closedGate?_eq_none {arch : Arch} {f f' : Features} (hle : f.Within f') (r : Route)
    (h : r.closedGate? arch f = none) : r.closedGate? arch f' = none := by
  unfold closedGate? at h ⊢
  simp only [List.find?_eq_none, Bool.not_eq_true', Bool.not_eq_false] at h ⊢
  exact fun gate hgate => gate.isOpen_of_within hle (h gate hgate)

namespace Lift

/-- A gate that is closed for the lifting alone is closed for both, or extensions differ. -/
theorem missing_runs {α : Type} {w : Insn} {ext : Extension} {m' : Lift α}
    {K : α → α → Progress → Progress → Prop} {pending : List Nat}
    (h : P.features = P.env.features → m' = missing w ext) :
    Runs P s pending (missing w ext) m' K := by
  by_cases heq : P.features = P.env.features
  · rw [h heq]
    exact refuse_runs
  · exact fun _ p p' _ => .gated w.raw ext p _ heq

theorem instruction_ends (hquiet : s.Quiet) :
    Ends P s (instruction P.word) (instruction P.word) := by
  unfold instruction
  cases Route.find? P.word with
  | none => exact refuse_runs
  | some route =>
      refine .give read_gives ?_
      simp only [Placement.alone_arch, Placement.alone_features]
      cases hgate : route.closedGate? P.env.arch P.features with
      | some gate =>
          refine missing_runs fun heq => ?_
          rw [← heq, hgate]
      | none =>
          -- The gates that the lifting alone passes are open behind a block too.
          rw [route.closedGate?_eq_none P.features_le hgate]
          exact route.family.lift_ends hquiet

theorem serve_ends (h : Hook) : Ends P s (serve h none) (serve h none) := by
  have hword : Arch.wordTy P.env.arch = P.gprTy := Arch.wordTy_eq _
  have hnext : P.Leads (P.env.imm (P.env.cutAddress (P.env.cia + BitVec.ofNat 64 Hook.length))) :=
    Placement.leads_imm fun hcia => Env.cutAddress_aligned (add_aligned hcia rfl)
  unfold serve
  refine .give read_gives (.give imm_gives ?_)
  cases h with
  | clientRequest => exact .give logged_gives (jumpTo_ends .imm (by decide) hnext)
  | redirectedAddress =>
      refine .read (getSpecial_reads (by decide) hword) fun _ _ h => ?_
      exact (putGpr_emits (by decide) h).ends
  | callUnredirected =>
      refine .seq (putSpecial_emits (by decide) hword .imm) fun _ _ => ?_
      have hrange : (Slot.gpr 11).InRange := show 11 < 32 by decide
      obtain ⟨_, h⟩ := Layout.locate_eq P.env.arch hrange
      refine .give (getSlot_gives h) (jumpTo_ends ⟨rfl, hword, .slot _ (by simp) h⟩ (by decide) ?_)
      exact Placement.leads_of_asConst? rfl
  | redirectedTable =>
      refine .read (getSpecial_reads (by decide) hword) fun _ _ h => ?_
      exact (putGpr_emits (by decide) h).ends
  | inject =>
      refine .give logged_gives (.read imm_reads fun _ _ h => ?_)
      refine .seq (putSpecial_emits (by decide) hword h) fun _ _ => ?_
      refine .read imm_reads fun _ _ h => ?_
      refine .seq (putSpecial_emits (by decide) hword h) fun _ _ => ?_
      exact jumpTo_ends .imm (by decide) hnext

end Lift

/-- The bytes that a lifting takes, with the request that it serves. -/
def Hook.span : Option Hook → Nat
  | some _ => Hook.length
  | none => 4

/-- The bytes that are taken at a code position. -/
def Announced.span : Announced → Nat
  | .hook _ => Hook.length
  | .absent | .unknown _ => 4

/-- The ends of two liftings at a code position. -/
structure Completed (P : Placement) (r r' : Nat × Option Hook) (q q' : Progress) : Prop where
  same : r = r'
  span : r.1 = Hook.span r.2
  marked : P.span = Hook.span r.2
  ending : Ending P () () q q'

/-- The stage on which an instruction is lifted: its start is marked, and no more. -/
def Placement.marked (P : Placement) : Stage :=
  Stage.push { outer := #[] } (.mark P.env.cia P.span 0)

theorem Placement.marked_sound (P : Placement) : P.marked.Sound P [] where
  bound_size := rfl
  code := .snoc .nil (.mark P.span rfl)
  head := rfl
  fields _ := .other .nil nofun
  sticky := by simp [marked, Stage.push, Stmt.Keeps]
  bound_iff := by simp [marked, Stage.push, boundBy, Stmt.target?]
  pending_iff := by simp [marked, Stage.push]
  pending_nodup := .nil

theorem Placement.marked_quiet (P : Placement) : P.marked.Quiet := by
  simp [marked, Stage.Quiet, Stage.push, Stmt.isQuiet]

theorem Lift.exec_mark (env : Env) (p : Progress) (addr : BitVec 64) (len : Nat) :
    exec env p (onStage fun s => .ok (s.mark addr len 0)) =
      (.ok (), { p with stage := p.stage.mark addr len 0 }) := exec_onStage rfl

/-- What is lifted behind the mark. -/
theorem Runs.afterMark {α : Type} {m m' : Lift α} {K : α → α → Progress → Progress → Prop}
    {p p' : Progress} (h : Runs P P.marked [] m m' K) (hp : P.Together { outer := #[] } p p') :
    Outcome P K
      (Lift.exec P.alone p
        ((Lift.onStage fun s => .ok (s.mark P.env.cia P.span 0)) >>= fun _ => m))
      (Lift.exec P.env p'
        ((Lift.onStage fun s => .ok (s.mark P.env.cia P.span 0)) >>= fun _ => m')) := by
  rw [Lift.exec_bind, Lift.exec_mark, Lift.exec_bind, Lift.exec_mark]
  refine h P.marked_sound _ _ ⟨rfl, ?_, hp.left_next, ?_, hp.right_next⟩
  · rw [hp.left]
    rfl
  · rw [hp.right]
    simp [Placement.marked, Stage.on, Stage.mark, Stage.push, Stmt.shift]

/-- A lifting at a code position starts from an empty stage. -/
theorem Guest.body_outcome (g : Guest) (hinjector : g.injector = none) (a : Announced)
    (hspan : P.span = a.span) {p p' : Progress} (hp : P.Together { outer := #[] } p p') :
    Outcome P (Completed P) (Lift.exec P.alone p (g.body P.word a))
      (Lift.exec P.env p' (g.body P.word a)) := by
  cases a with
  | unknown request => exact .refused _ _ _
  | absent =>
      have hends : Runs P P.marked [] (Lift.instruction P.word >>= fun _ => pure (4, none))
          (Lift.instruction P.word >>= fun _ => pure (4, none)) (Completed P) :=
        (Lift.instruction_ends P.marked_quiet).andThen fun _ _ _ _ _ h => .both ⟨rfl, rfl, hspan, h⟩
      have h := hends.afterMark hp
      rwa [hspan] at h
  | hook request =>
      have hends : Runs P P.marked []
          (Lift.serve request none >>= fun _ => pure (Hook.length, some request))
          (Lift.serve request none >>= fun _ => pure (Hook.length, some request)) (Completed P) :=
        (Lift.serve_ends request).andThen fun _ _ _ _ _ h => .both ⟨rfl, rfl, hspan, h⟩
      have h := hends.afterMark hp
      rw [hspan] at h
      rwa [body, hinjector]

end PowerLift
