import PowerLift.Proofs.BlockIndependence

/-!
# Capabilities only gate

A capability decides whether a word is lifted, never what it is lifted to. With more capabilities, a
word that was lifted is lifted to the same code, and a word that is still refused was refused before:
for the same reason, or for want of an extension.
-/

namespace PowerLift

/-- Every capability of `caps` is one of `caps'`. -/
def Capabilities.Within (caps caps' : Capabilities) : Prop :=
  ∀ c, caps.has c = true → caps'.has c = true

theorem Features.resolve_within {caps caps' : Capabilities} (hle : caps.Within caps') (arch : Arch) :
    (resolve arch caps).Within (resolve arch caps') := by
  cases arch with
  | ppc32 => constructor <;> exact hle _
  | ppc64 =>
      constructor
      -- A 64-bit processor has floating point in any case.
      · exact id
      all_goals exact hle _

/-! ## Code that asks for no extension -/

namespace Lift

/-- A lifting that does not look at the processor. -/
def Ungated {α : Type} (m : Lift α) : Prop :=
  ∀ (env : Env) (features : Features) (info : Processor) (p : Progress),
    exec { env with features, info } p m = exec env p m

namespace Ungated

variable {α β : Type}

theorem bind {x : Lift α} {f : α → Lift β} (hx : Ungated x) (hf : ∀ a, Ungated (f a)) :
    Ungated (x >>= f) := by
  intro env features info p
  rw [exec_bind, exec_bind, hx env features info p]
  rcases exec env p x with ⟨_ | a, q⟩
  · rfl
  · exact hf a env features info q

theorem read {f : Env → Lift β}
    (hsame : ∀ (env : Env) (features : Features) (info : Processor),
      f { env with features, info } = f env)
    (hf : ∀ env, Ungated (f env)) : Ungated (MonadReaderOf.read >>= f) := by
  intro env features info p
  have hleft : exec { env with features, info } p (MonadReaderOf.read >>= f) =
      exec { env with features, info } p (f { env with features, info }) := rfl
  have hright : exec env p (MonadReaderOf.read >>= f) = exec env p (f env) := rfl
  rw [hleft, hright, hsame]
  exact hf env env features info p

theorem pure (a : α) : Ungated (Pure.pure a) := fun _ _ _ _ => rfl

theorem onStage (f : Stage → Except Fault Stage) : Ungated (Lift.onStage f) := by
  intro env features info p
  cases hf : f p.stage with
  | ok s => rw [exec_onStage hf, exec_onStage hf]
  | error fault =>
      simp only [Lift.onStage, exec_bind, exec_get, hf]
      rfl

theorem logged (severity : Severity) (text : String) : Ungated (Lift.logged severity text) :=
  fun _ _ _ _ => rfl

theorem ofExcept (x : Except Fault α) : Ungated (Lift.ofExcept x) := by
  cases x <;> exact fun _ _ _ _ => rfl

theorem imm (v : BitVec 64) : Ungated (Lift.imm v) :=
  .read (fun _ _ _ => rfl) fun _ => .pure _

theorem getPlace (place : Except Fault Layout.Place) : Ungated (Lift.getPlace place) :=
  .bind (.ofExcept place) fun _ => .pure _

theorem putPlace (place : Except Fault Layout.Place) (e : Expr) : Ungated (Lift.putPlace place e) :=
  .bind (.ofExcept place) fun _ => .onStage _

theorem getSlot (slot : Slot) : Ungated (Lift.getSlot slot) :=
  .read (fun _ _ _ => rfl) fun _ => .getPlace _

theorem putSlot (slot : Slot) (e : Expr) : Ungated (Lift.putSlot slot e) :=
  .read (fun _ _ _ => rfl) fun _ => .putPlace _ _

theorem getGpr (i : Nat) : Ungated (Lift.getGpr i) :=
  .read (fun _ _ _ => rfl) fun _ => .getPlace _

theorem putGpr (i : Nat) (e : Expr) : Ungated (Lift.putGpr i e) :=
  .read (fun _ _ _ => rfl) fun _ => .putPlace _ _

theorem jumpTo (e : Expr) (kind : JumpKind) : Ungated (Lift.jumpTo e kind) :=
  .bind (.putSlot _ _) fun _ _ _ _ _ => rfl

/-- A request is served alike by all processors. -/
theorem serve (h : Hook) (injector : Option Injector) : Ungated (Lift.serve h injector) := by
  refine .read (fun _ _ _ => rfl) fun env => .bind (.imm _) fun next => ?_
  cases h with
  | clientRequest => exact .bind (.logged _ _) fun _ => .jumpTo _ _
  | redirectedAddress => exact .bind (.getSlot _) fun _ => .putGpr _ _
  | callUnredirected =>
      exact .bind (.putSlot _ _) fun _ => .bind (.getGpr _) fun _ => .jumpTo _ _
  | redirectedTable => exact .bind (.getSlot _) fun _ => .putGpr _ _
  | inject =>
      have hrest : Ungated (do
          Lift.putSlot SpecialSlot.cmStart (← Lift.imm env.cia)
          Lift.putSlot SpecialSlot.cmLen (← Lift.imm (.ofNat 64 Hook.length))
          Lift.jumpTo next .invalICache) :=
        .bind (.imm _) fun _ => .bind (.putSlot _ _) fun _ => .bind (.imm _) fun _ =>
          .bind (.putSlot _ _) fun _ => .jumpTo _ _
      cases injector with
      | none => exact .bind (.logged _ _) fun _ => hrest
      | some add => exact .bind (.onStage _) fun _ => hrest

end Ungated

end Lift

namespace Guest

/-- The guest with other capabilities. -/
def withCaps (g : Guest) (caps : Capabilities) : Guest :=
  { g with info := { g.info with caps } }

/-- How the attempts with fewer and with more capabilities may end. -/
inductive Gated : Except Stop (Nat × Option Hook) × Progress →
    Except Stop (Nat × Option Hook) × Progress → Prop where
  | lifted (r : Nat × Option Hook) (p p' : Progress) (hstage : p.stage = p'.stage)
      (hnext : p.next = p'.next) : Gated (.ok r, p) (.ok r, p')
  | refused (r : Refusal) (p p' : Progress) :
      Gated (.error (.refuse r), p) (.error (.refuse r), p')
  | faulted (f : Fault) (p p' : Progress) : Gated (.error (.fault f), p) (.error (.fault f), p')
  | missing (raw : BitVec 32) (ext : Extension) (p : Progress)
      (more : Except Stop (Nat × Option Hook) × Progress) :
      Gated (.error (.refuse ⟨raw, .missing ext⟩), p) more

theorem Gated.refl (attempt : Except Stop (Nat × Option Hook) × Progress) :
    Gated attempt attempt := by
  rcases attempt with ⟨(f | r) | r, p⟩
  · exact .faulted f p p
  · exact .refused r p p
  · exact .lifted r p p rfl rfl

section

variable {g : Guest} {caps caps' : Capabilities} {code : ByteArray} {offset : Nat} {w : Insn}
  {cia start : BitVec 64} {block : Block}

theorem attempt_request {h : Hook}
    (hscan : Announced.scan code offset g.arch g.info.order = .hook h) :
    (g.withCaps caps).attempt code offset cia start block w =
      (g.withCaps caps').attempt code offset cia start block w := by
  have hbody : Lift.Ungated (g.body w (.hook h)) :=
    .read (fun _ _ _ => rfl) fun _ => .bind (.onStage _) fun _ => .bind (.serve _ _) fun _ => .pure _
  have hscan₁ : Announced.scan code offset (g.withCaps caps).arch (g.withCaps caps).info.order =
      .hook h := hscan
  have hscan₂ : Announced.scan code offset (g.withCaps caps').arch (g.withCaps caps').info.order =
      .hook h := hscan
  rw [attempt, attempt, hscan₁, hscan₂]
  exact hbody ((g.withCaps caps').env cia start) _ _ _

/-- The placement behind a block with more capabilities, against the lifting alone with fewer. -/
def gatedPlacement (hle : caps.Within caps') (hcheck' : (g.withCaps caps').check = .ok ())
    (code : ByteArray) (offset : Nat) (cia start : BitVec 64) (block : Block) (w : Insn) :
    Placement :=
  { placementAt hcheck' code offset cia start block w with
    caps
    features := .resolve g.arch caps
    features_le := Features.resolve_within hle g.arch }

variable (code offset w cia start block) in
theorem gatedPlacement_outcome (hle : caps.Within caps')
    (hcheck' : (g.withCaps caps').check = .ok ()) (hinjector : g.injector = none) :
    Outcome (gatedPlacement hle hcheck' code offset cia start block w)
      (Completed (gatedPlacement hle hcheck' code offset cia start block w))
      ((g.withCaps caps).straight.attempt code offset cia cia (.empty 0) w)
      ((g.withCaps caps').attempt code offset cia start block w) :=
  body_outcome (g.withCaps caps') hinjector _ rfl
    ⟨rfl, rfl, rfl, Stage.start_eq_on block, rfl⟩

/-- Two liftings that compare with one lifting alone compare with each other. -/
theorem attempt_gated_closed (hle : caps.Within caps') (hcheck : (g.withCaps caps).check = .ok ())
    (hcheck' : (g.withCaps caps').check = .ok ()) (hinjector : g.injector = none)
    (hfetch : Insn.fetch? code offset g.info.order = some w) :
    Gated ((g.withCaps caps).attempt code offset cia start block w)
      ((g.withCaps caps').attempt code offset cia start block w) := by
  have hfew := attempt_outcome code offset w cia start block hcheck hinjector
    (show (Block.empty 0).types = #[] from rfl)
  have hmore := gatedPlacement_outcome code offset w cia start block hle hcheck' hinjector
  generalize (g.withCaps caps).straight.attempt code offset cia cia (.empty 0) w = alone
    at hfew hmore
  generalize hleft : (g.withCaps caps).attempt code offset cia start block w = left at hfew
  generalize hright : (g.withCaps caps').attempt code offset cia start block w = right at hmore
  cases hfew with
  | gated raw ext q right h => exact absurd rfl h
  | refused r q q₁ =>
      cases hmore with
      | refused r q q₂ => exact .refused r q₁ q₂
      | gated raw ext q right h => exact .missing raw ext q₁ _
  | @both r r₁ q q₁ hfew =>
      obtain ⟨rfl, -, -, hending⟩ := hfew
      cases hmore with
      | @both _ r₂ _ q₂ hmore =>
          obtain ⟨rfl, -, -, hending'⟩ := hmore
          obtain ⟨hstage, hnext⟩ := hending.right_eq (attempt_follows hcheck hfetch hleft)
          obtain ⟨hstage', hnext'⟩ := hending'.right_eq (attempt_follows hcheck' hfetch hright)
          exact .lifted r q₁ q₂ (hstage.trans hstage'.symm) (hnext.trans hnext'.symm)

variable (cia start block) in
theorem attempt_gated (hle : caps.Within caps') (hcheck : (g.withCaps caps).check = .ok ())
    (hcheck' : (g.withCaps caps').check = .ok ())
    (hfetch : Insn.fetch? code offset g.info.order = some w) :
    Gated ((g.withCaps caps).attempt code offset cia start block w)
      ((g.withCaps caps').attempt code offset cia start block w) := by
  by_cases hrequest : ∃ h, Announced.scan code offset g.arch g.info.order = .hook h
  · obtain ⟨h, hscan⟩ := hrequest
    rw [attempt_request hscan]
    exact .refl _
  · -- Code is added at a request only.
    have hinjector : Announced.scan code offset g.arch g.info.order = .hook .inject →
        g.injector = none := fun hscan => absurd ⟨_, hscan⟩ hrequest
    rw [attempt_closed (g := g.withCaps caps) w hinjector,
      attempt_closed (g := g.withCaps caps') w hinjector]
    exact attempt_gated_closed (g := g.closed) hle hcheck hcheck' rfl hfetch

theorem lift_congr {g g' : Guest} (hcheck : g.check = .ok ()) (hcheck' : g'.check = .ok ())
    (hfetch : Insn.fetch? code offset g.info.order = some w)
    (hfetch' : Insn.fetch? code offset g'.info.order = some w) {r : Nat × Option Hook}
    {p p' : Progress} (h : g.attempt code offset cia start block w = (.ok r, p))
    (h' : g'.attempt code offset cia start block w = (.ok r, p')) (hstage : p.stage = p'.stage)
    (hnext : p.next = p'.next) :
    (g'.lift code offset cia start block).result = (g.lift code offset cia start block).result ∧
      (g'.lift code offset cia start block).block = (g.lift code offset cia start block).block := by
  simp only [lift, hcheck, hcheck', hfetch, hfetch', h, h', hstage, hnext]
  split <;> exact ⟨rfl, rfl⟩

end

/-- What is lifted with fewer capabilities is lifted with more to the same answer and the same code;
what is refused with more is refused with fewer, for the same reason or for want of an extension. -/
theorem capabilities_gate (g : Guest) (caps caps' : Capabilities) (hle : caps.Within caps')
    (hcheck : (g.withCaps caps).check = .ok ()) (hcheck' : (g.withCaps caps').check = .ok ())
    (code : ByteArray) (offset : Nat) (w : Insn)
    (hfetch : Insn.fetch? code offset g.info.order = some w) (cia start : BitVec 64)
    (block : Block) :
    (∀ l, ((g.withCaps caps).lift code offset cia start block).result = .ok l →
      l.next ≠ .stop .noDecode →
      ((g.withCaps caps').lift code offset cia start block).result = .ok l ∧
      ((g.withCaps caps').lift code offset cia start block).block =
        ((g.withCaps caps).lift code offset cia start block).block) ∧
    ∀ r' p', (g.withCaps caps').attempt code offset cia start block w =
        (.error (.refuse r'), p') →
      ∃ r p, (g.withCaps caps).attempt code offset cia start block w = (.error (.refuse r), p) ∧
        (r = r' ∨ ∃ ext, r.reason = .missing ext) := by
  have hgated := attempt_gated cia start block hle hcheck hcheck' hfetch
  generalize hfew : (g.withCaps caps).attempt code offset cia start block w = few at hgated
  generalize hmore : (g.withCaps caps').attempt code offset cia start block w = more at hgated
  constructor
  · intro l hresult haccepted
    have hrefused : ∀ r p, few ≠ (.error (.refuse r), p) := by
      rintro r p rfl
      obtain ⟨hstop, -⟩ := lift_of_refusal hcheck hfetch hfew
      obtain rfl := Except.ok.inj (hstop.symm.trans hresult)
      exact haccepted rfl
    cases hgated with
    | lifted r p p' hstage hnext =>
        rw [← hresult]
        exact lift_congr hcheck hcheck' hfetch hfetch hfew hmore hstage hnext
    | refused r p p' => exact absurd rfl (hrefused r p)
    | missing raw ext p more => exact absurd rfl (hrefused _ p)
    | faulted f p p' =>
        have hfault : ((g.withCaps caps).lift code offset cia start block).result = .error f := by
          have hfetch : Insn.fetch? code offset (g.withCaps caps).info.order = some w := hfetch
          simp only [lift, hcheck, hfetch, hfew]
        rw [hfault] at hresult
        contradiction
  · rintro r' p' rfl
    cases hgated with
    | refused => exact ⟨_, _, rfl, .inl rfl⟩
    | missing raw ext p more => exact ⟨_, p, rfl, .inr ⟨ext, rfl⟩⟩

/-- A sum of vectors with and without vector-scalar registers, and a word that needs more than
either processor has. -/
theorem capabilities_gate_vector :
    let g : Guest := { arch := .ppc64 }
    let caps : Capabilities := ⟨Capability.ppc64V.mask⟩
    let caps' : Capabilities := ⟨Capability.ppc64V.mask ||| Capability.ppc64VX.mask⟩
    let sum : ByteArray := ⟨#[0x10, 0x22, 0x18, 0x00]⟩
    let single : ByteArray := ⟨#[0xF0, 0, 0, 0]⟩
    (((g.withCaps caps').lift sum 0 0x1000 0x1000 (.empty 0)).result = .ok ⟨4, .continue, none⟩ ∧
      ((g.withCaps caps').lift sum 0 0x1000 0x1000 (.empty 0)).block =
        ((g.withCaps caps).lift sum 0 0x1000 0x1000 (.empty 0)).block) ∧
    ∃ r p, (g.withCaps caps).attempt single 0 0x1000 0x1000 (.empty 0) ⟨0xF0000000⟩ =
        (.error (.refuse r), p) ∧
      (r = ⟨0xF0000000, .missing .isa207⟩ ∨ ∃ ext, r.reason = .missing ext) := by
  intro g caps caps' sum single
  have hle : caps.Within caps' := by
    intro c
    cases c <;> decide
  have hcheck : (g.withCaps caps).check = .ok () := by decide
  have hcheck' : (g.withCaps caps').check = .ok () := by decide
  have hsum : ((g.withCaps caps).lift sum 0 0x1000 0x1000 (.empty 0)).result =
      .ok ⟨4, .continue, none⟩ := by decide +kernel
  have hsingle : (g.withCaps caps').attempt single 0 0x1000 0x1000 (.empty 0) ⟨0xF0000000⟩ =
      (.error (.refuse ⟨0xF0000000, .missing .isa207⟩),
        { stage := { outer := #[], stmts := #[.mark 0x1000 4 0] } }) := by
    simp only [g, caps', single]
    rfl
  constructor
  · exact (capabilities_gate g caps caps' hle hcheck hcheck' sum 0 ⟨0x10221800⟩ (by decide)
      0x1000 0x1000 (.empty 0)).1 _ hsum (by decide)
  · exact (capabilities_gate g caps caps' hle hcheck hcheck' single 0 ⟨0xF0000000⟩ (by decide)
      0x1000 0x1000 (.empty 0)).2 _ _ hsingle

end Guest

end PowerLift
