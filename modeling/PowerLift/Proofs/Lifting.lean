import PowerLift.Proofs.Instruction

/-!
# Lifting at a code position

A supported configuration lifts every word: the lifting ends, and what it leaves in the block is
either all the code of the instruction or one write of the instruction address. Two liftings of the
same word, alone and behind a block, answer alike.
-/

namespace PowerLift

/-! ## Supported configurations -/

/-- What a supported configuration promises to translators. -/
structure Guest.Supported (g : Guest) : Prop where
  layout_eq : g.layout = g.arch
  dcbz_size : g.info.dcbzSize ∈ Processor.lineSizes
  dcbzl_size : g.info.dcbzlSize ∈ Processor.lineSizes
  icache_size : g.info.icacheLineSize ∈ Processor.lineSizes

theorem Processor.mem_lineSizes {info : Processor} (h : info.badLineSize? = none) :
    info.dcbzSize ∈ lineSizes ∧ info.dcbzlSize ∈ lineSizes ∧ info.icacheLineSize ∈ lineSizes := by
  simpa [badLineSize?] using h

theorem Guest.supported_of_check {g : Guest} (h : g.check = .ok ()) : g.Supported := by
  have hlayout : g.layout = g.arch := by
    by_cases hlayout : g.layout = g.arch
    · exact hlayout
    · unfold check at h
      simp only [hlayout, ne_eq, not_false_eq_true, if_true] at h
      split at h <;> split at h <;> contradiction
  have hsize : g.info.badLineSize? = none := by
    cases hsize : g.info.badLineSize? with
    | none => rfl
    | some entry =>
        unfold check at h
        simp only [hsize] at h
        split at h <;> split at h <;> split at h <;> contradiction
  obtain ⟨hdcbz, hdcbzl, hicache⟩ := Processor.mem_lineSizes hsize
  exact ⟨hlayout, hdcbz, hdcbzl, hicache⟩

/-- The placement of an instruction behind a block, against the lifting alone. -/
def Guest.Supported.placement {g : Guest} (h : g.Supported) (cia blockStart : BitVec 64)
    (outer : Array Ty) (word : Insn) (span : Nat) : Placement where
  env := g.env cia blockStart
  outer
  caps := g.info.caps
  features := .resolve g.arch g.info.caps
  start := cia
  word
  span
  layout_eq := h.layout_eq
  features_le := .refl _
  dcbz_size := h.dcbz_size
  dcbzl_size := h.dcbzl_size
  icache_size := h.icache_size

/-- The guest that follows no branch. -/
def Guest.straight (g : Guest) : Guest := { g with mayResteer := fun _ => false }

/-- The guest to whose code nothing is added at its request. -/
def Guest.closed (g : Guest) : Guest := { g with injector := none }

/-! ## Blocks with new code -/

namespace Block

/-- A block with the code of a stage. -/
def extended (block : Block) (s : Stage) : Block :=
  { block with types := block.types ++ s.types, stmts := block.stmts ++ s.stmts }

/-- A block with a write of the instruction address. -/
def stopped (block : Block) (env : Env) : Block :=
  let put : Stmt := .put (Layout.specialOffset env.arch .cia) (env.imm env.cia)
  { block with stmts := block.stmts.push put }

end Block

theorem Stage.commit_eq {s : Stage} {block : Block} (h : s.outer = block.types) :
    s.commit block = .ok (block.extended s) := by
  simp [commit, base, h, Block.extended]

/-- Both liftings of a placement start from an empty stage. -/
theorem Stage.start_eq_on (block : Block) :
    Stage.start block = ({ outer := #[] } : Stage).on block.types := by
  simp [start, on]

theorem Guest.stopHere_eq {env : Env} (hlayout : env.layout = env.arch) (block : Block) :
    stopHere env block = .ok (block.stopped env) := by
  have hty : (Stage.start block).check (env.imm env.cia) = .ok (SpecialSlot.cia.ty env.arch) := by
    simp [Stage.check, Env.imm, Expr.temps, Expr.check, env.address_ty, SpecialSlot.ty,
      Arch.wordTy_eq]
  have hput : (Stage.start block).put (Layout.specialOffset env.arch .cia)
      (SpecialSlot.cia.ty env.arch) (env.imm env.cia) =
        .ok ((Stage.start block).push (.put (Layout.specialOffset env.arch .cia)
          (env.imm env.cia))) := by
    simp [Stage.put, hty]
  simp only [stopHere, hlayout, hput, ok_bind]
  rw [Stage.commit_eq rfl]
  simp [Block.extended, Block.stopped, Stage.push, Stage.start]

/-! ## Answers -/

namespace Ending

variable {P : Placement} {q q' : Progress}

theorem left_outer (h : Ending P () () q q') : q.stage.outer = #[] := by
  cases h with
  | through s htogether hsound => rw [htogether.left, htogether.outer]
  | stop s kind e e' houter hsound he hkind hleft hright hnext hnext' =>
      rw [hleft, Stage.push_outer, houter]
  | followed s kind target houter hsound hkind hcut hmay hword hleft hright hnext hnext' =>
      rw [hleft, Stage.push_outer, houter]

theorem right_outer (h : Ending P () () q q') : q'.stage.outer = P.outer := by
  cases h with
  | through s htogether hsound => rw [htogether.right]; rfl
  | stop s kind e e' houter hsound he hkind hleft hright hnext hnext' =>
      rw [hright, Stage.push_outer]; rfl
  | followed s kind target houter hsound hkind hcut hmay hword hleft hright hnext hnext' =>
      rw [hright]; rfl

/-- A translator that ends never asks for the refusal of its word. -/
theorem next_ne (h : Ending P () () q q') : q'.next ≠ .stop .noDecode := by
  cases h with
  | through s htogether hsound => simp [htogether.right_next]
  | stop s kind e e' houter hsound he hkind hleft hright hnext hnext' => simpa [hnext'] using hkind
  | followed s kind target houter hsound hkind hcut hmay hword hleft hright hnext hnext' =>
      simp [hnext']

end Ending

/-- The statements of whole instructions: those that translators emit, and a write of the
instruction address. -/
inductive Emitted (env : Env) (types : Array Ty) (ss : List Stmt) : Stmt → Prop where
  | fits {stmt : Stmt} (h : Fits env types ss stmt) : Emitted env types ss stmt
  | address (e : Expr) (he : e.HasTy env (scopeOf types ss) env.gprTy) :
      Emitted env types ss (.put (Layout.specialOffset env.arch .cia) e)

/-- What is staged behind a block is a trail, numbered on from the block. -/
theorem Ending.emitted {P : Placement} {q q' : Progress} (h : Ending P () () q q') :
    ∃ ss, Trail (Emitted P.env q'.stage.types) ss ∧
      q'.stage.stmts.toList = ss.map (Stmt.shift P.outer.size) := by
  have hfits : ∀ s : Stage, s.Sound P [] → Trail (Emitted P.env s.types) s.stmts.toList :=
    fun s hsound => hsound.code.mono fun _ _ => .fits
  cases h with
  | through s htogether hsound =>
      rw [htogether.right]
      exact ⟨_, hfits s hsound, Array.toList_map⟩
  | stop s kind e e' houter hsound he hkind hleft hright hnext hnext' =>
      rw [hright, he.shift_eq]
      refine ⟨_, .snoc (hfits s hsound) (.address e he.hasTy), ?_⟩
      rw [Stage.push_stmts, Stage.on, Array.toList_map, List.map_append]
      rfl
  | followed s kind target houter hsound hkind hcut hmay hword hleft hright hnext hnext' =>
      rw [hright]
      exact ⟨_, hfits s hsound, Array.toList_map⟩

/-- The answers to one word, lifted alone and behind a block. -/
inductive Answers (P : Placement) (single block : Block) (left right : Report) : Prop where
  | refused (hleft : left.result = .ok ⟨0, .stop .noDecode, none⟩)
      (hleft_block : left.block = single.stopped P.env)
      (hright : right.result = .ok ⟨0, .stop .noDecode, none⟩)
      (hright_block : right.block = block.stopped P.env)
  | lifted (q q' : Progress) (hook : Option Hook) (hmarked : P.span = Hook.span hook)
      (hending : Ending P () () q q')
      (hleft : left.result = .ok ⟨Hook.span hook, q.next, hook⟩)
      (hleft_block : left.block = single.extended q.stage)
      (hright : right.result = .ok ⟨Hook.span hook, q'.next, hook⟩)
      (hright_block : right.block = block.extended q'.stage)

namespace Guest

variable {g : Guest} {code : ByteArray} {offset : Nat} {w : Insn} {cia blockStart : BitVec 64}
  {block : Block} {p : Progress}

/-- The lifting of the code at a position, before it becomes part of a block. -/
abbrev attempt (g : Guest) (code : ByteArray) (offset : Nat) (cia blockStart : BitVec 64)
    (block : Block) (w : Insn) : Except Stop (Nat × Option Hook) × Progress :=
  Lift.exec (g.env cia blockStart) { stage := .start block }
    (g.body w (.scan code offset g.arch g.info.order))

theorem lift_of_refusal (hcheck : g.check = .ok ())
    (hfetch : Insn.fetch? code offset g.info.order = some w) {r : Refusal}
    (h : g.attempt code offset cia blockStart block w = (.error (.refuse r), p)) :
    (g.lift code offset cia blockStart block).result = .ok ⟨0, .stop .noDecode, none⟩ ∧
      (g.lift code offset cia blockStart block).block = block.stopped (g.env cia blockStart) := by
  have hlayout : (g.env cia blockStart).layout = (g.env cia blockStart).arch :=
    (supported_of_check hcheck).layout_eq
  simp only [lift, hcheck, hfetch, h, stopHere_eq hlayout, and_self]

theorem lift_of_success (hcheck : g.check = .ok ())
    (hfetch : Insn.fetch? code offset g.info.order = some w) {n : Nat} {hook : Option Hook}
    (h : g.attempt code offset cia blockStart block w = (.ok (n, hook), p))
    (houter : p.stage.outer = block.types) :
    (g.lift code offset cia blockStart block).result = .ok ⟨n, p.next, hook⟩ ∧
      (g.lift code offset cia blockStart block).block = block.extended p.stage := by
  simp only [lift, hcheck, hfetch, h, Stage.commit_eq houter, and_self]

/-- Only supported configurations lift. -/
theorem check_of_lift {l : Lifted} (h : (g.lift code offset cia blockStart block).result = .ok l) :
    g.check = .ok () := by
  cases hcheck : g.check with
  | ok => rfl
  | error f => simp [lift, hcheck] at h

theorem fetch_of_lift {l : Lifted} (h : (g.lift code offset cia blockStart block).result = .ok l) :
    ∃ w, Insn.fetch? code offset g.info.order = some w := by
  cases hfetch : Insn.fetch? code offset g.info.order with
  | some w => exact ⟨w, rfl⟩
  | none => simp [lift, check_of_lift h, hfetch] at h

theorem fetch?_isSome (order : ByteOrder) (hcode : offset + 4 ≤ code.size) :
    ∃ w, Insn.fetch? code offset order = some w := by
  rw [Insn.fetch?, if_pos hcode]
  exact ⟨_, rfl⟩

/-- The placement of the code at a position. -/
abbrev placementAt (hcheck : g.check = .ok ()) (code : ByteArray) (offset : Nat)
    (cia blockStart : BitVec 64) (block : Block) (w : Insn) : Placement :=
  (supported_of_check hcheck).placement cia blockStart block.types w
    (Announced.scan code offset g.arch g.info.order).span

variable (code offset w cia blockStart block) in
theorem attempt_outcome (hcheck : g.check = .ok ()) (hinjector : g.injector = none)
    {single : Block} (hsingle : single.types = #[]) :
    Outcome (placementAt hcheck code offset cia blockStart block w)
      (Completed (placementAt hcheck code offset cia blockStart block w))
      (g.straight.attempt code offset cia cia single w)
      (g.attempt code offset cia blockStart block w) := by
  refine body_outcome g hinjector _ rfl ⟨rfl, ?_, rfl, Stage.start_eq_on block, rfl⟩
  rw [Stage.start, hsingle]

/-- Code is added only where the guest asks for it. -/
theorem body_closed {a : Announced} (h : a = .hook .inject → g.injector = none) (w : Insn) :
    g.body w a = g.closed.body w a := by
  cases a with
  | absent | unknown => rfl
  | hook request =>
      cases request with
      | inject => rw [body, body, h rfl, closed]
      | _ => rfl

theorem attempt_closed (w : Insn)
    (h : Announced.scan code offset g.arch g.info.order = .hook .inject → g.injector = none) :
    g.attempt code offset cia blockStart block w =
      g.closed.attempt code offset cia blockStart block w := by
  rw [attempt, attempt, body_closed h w]
  rfl

theorem lift_closed
    (h : Announced.scan code offset g.arch g.info.order = .hook .inject → g.injector = none) :
    g.lift code offset cia blockStart block = g.closed.lift code offset cia blockStart block := by
  have hcheck : g.closed.check = g.check := rfl
  have hfetch : Insn.fetch? code offset g.closed.info.order =
      Insn.fetch? code offset g.info.order := rfl
  unfold lift
  rw [hcheck, hfetch]
  cases g.check with
  | error f => rfl
  | ok =>
      cases Insn.fetch? code offset g.info.order with
      | none => rfl
      | some w =>
          simp only [body_closed h w]
          rfl

/-- One word has one meaning, alone and behind a block. -/
theorem lift_answers (hcheck : g.check = .ok ()) (hinjector : g.injector = none)
    (hfetch : Insn.fetch? code offset g.info.order = some w) {single : Block}
    (hsingle : single.types = #[]) :
    Answers (placementAt hcheck code offset cia blockStart block w) single block
      (g.straight.lift code offset cia cia single) (g.lift code offset cia blockStart block) := by
  have hcheck' : g.straight.check = .ok () := hcheck
  have hfetch' : Insn.fetch? code offset g.straight.info.order = some w := hfetch
  have houtcome := attempt_outcome code offset w cia blockStart block hcheck hinjector hsingle
  generalize hleft : g.straight.attempt code offset cia cia single w = left at houtcome
  generalize hright : g.attempt code offset cia blockStart block w = right at houtcome
  cases houtcome with
  | refused r q q' =>
      obtain ⟨hresult, hblock⟩ := lift_of_refusal hcheck' hfetch' hleft
      obtain ⟨hresult', hblock'⟩ := lift_of_refusal hcheck hfetch hright
      exact .refused hresult hblock hresult' hblock'
  -- Both liftings have the same extensions here.
  | gated raw ext q right h => exact absurd rfl h
  | both h =>
      next a a' q q' =>
      obtain ⟨n, hook⟩ := a
      obtain ⟨rfl, hspan, hmarked, hending⟩ := h
      obtain rfl : n = Hook.span hook := hspan
      have houter : q.stage.outer = single.types := by rw [hending.left_outer, hsingle]
      obtain ⟨hresult, hblock⟩ := lift_of_success hcheck' hfetch' hleft houter
      obtain ⟨hresult', hblock'⟩ := lift_of_success hcheck hfetch hright hending.right_outer
      exact .lifted q q' hook hmarked hending hresult hblock hresult' hblock'

/-- In a supported configuration the word at a position has one meaning, alone and behind a
block. -/
theorem exists_answers (hcheck : g.check = .ok ()) (hinjector : g.injector = none)
    (hcode : offset + 4 ≤ code.size) {single : Block} (hsingle : single.types = #[]) :
    ∃ w, Answers (placementAt hcheck code offset cia blockStart block w) single block
      (g.straight.lift code offset cia cia single) (g.lift code offset cia blockStart block) := by
  obtain ⟨w, hfetch⟩ := fetch?_isSome g.info.order hcode
  exact ⟨w, lift_answers hcheck hinjector hfetch hsingle⟩

/-- The word of a lifting that succeeds has one meaning, alone and behind the block. -/
theorem answers_of_lift (hinjector : g.injector = none) {l : Lifted}
    (hresult : (g.lift code offset cia blockStart block).result = .ok l) {single : Block}
    (hsingle : single.types = #[]) :
    ∃ (hcheck : g.check = .ok ()) (w : Insn),
      Answers (placementAt hcheck code offset cia blockStart block w) single block
        (g.straight.lift code offset cia cia single) (g.lift code offset cia blockStart block) := by
  obtain ⟨w, hfetch⟩ := fetch_of_lift hresult
  exact ⟨check_of_lift hresult, w, lift_answers _ hinjector hfetch hsingle⟩

/-- What an answered word adds to its block is a trail, numbered on from the block. -/
theorem lift_emitted
    (hinjector : Announced.scan code offset g.arch g.info.order = .hook .inject →
      g.injector = none) {l : Lifted}
    (hresult : (g.lift code offset cia blockStart block).result = .ok l) :
    ∃ types ss, Trail (Emitted (g.env cia blockStart) types) ss ∧
      (g.lift code offset cia blockStart block).block.types = block.types ++ types ∧
      (g.lift code offset cia blockStart block).block.stmts.toList =
        block.stmts.toList ++ ss.map (Stmt.shift block.types.size) := by
  rw [lift_closed hinjector] at hresult ⊢
  obtain ⟨hcheck, w, hanswers⟩ :=
    answers_of_lift rfl hresult (show (Block.empty 0).types = #[] from rfl)
  cases hanswers with
  | refused hleft hleft_block hright hright_block =>
      rw [hright_block]
      have hcia : ((g.env cia blockStart).imm cia).HasTy (g.env cia blockStart) (scopeOf #[] [])
          (g.env cia blockStart).gprTy := Env.address_ty _ cia
      refine ⟨#[], _, .snoc .nil (.address _ hcia), ?_, ?_⟩
      · simp [Block.stopped]
      · simp only [Block.stopped, Array.toList_push]
        rfl
  | lifted q q' hook hmarked hending hleft hleft_block hright hright_block =>
      obtain ⟨ss, hss, hstmts⟩ := hending.emitted
      rw [hright_block]
      refine ⟨q'.stage.types, ss, hss, rfl, ?_⟩
      rw [Block.extended, Array.toList_append, hstmts]
      rfl

/-- Lifting never faults: every word is lifted or refused, in every supported configuration. -/
theorem lift_returns (g : Guest) (hcheck : g.check = .ok ()) (hinjector : g.injector = none)
    (code : ByteArray) (offset : Nat) (hcode : offset + 4 ≤ code.size) (cia blockStart : BitVec 64)
    (block : Block) : ∃ l, (g.lift code offset cia blockStart block).result = .ok l := by
  obtain ⟨w, hfetch⟩ := fetch?_isSome g.info.order hcode
  have hanswers : Answers _ (.empty 0) block _ (g.lift code offset cia blockStart block) :=
    lift_answers hcheck hinjector hfetch rfl
  cases hanswers with
  | refused hleft hleft_block hright hright_block => exact ⟨_, hright⟩
  | lifted q q' hook hmarked hending hleft hleft_block hright hright_block => exact ⟨_, hright⟩

/-- A sum that records overflow and compares its result with zero. -/
theorem lift_returns_sum :
    ∃ l, (Guest.lift { arch := .ppc64 } ⟨#[0x7C, 0x64, 0x2E, 0x15]⟩ 0 0x1000 0x1000
      (.empty 0)).result = .ok l :=
  lift_returns { arch := .ppc64 } rfl rfl _ 0 (by decide) _ _ _

/-- A refused word leaves only a write of its address, and an accepted one adds its code behind what
the block has; the two can be told apart. -/
theorem lift_refuses_or_extends (g : Guest) (hcheck : g.check = .ok ()) (code : ByteArray)
    (offset : Nat) (w : Insn) (hfetch : Insn.fetch? code offset g.info.order = some w)
    (cia blockStart : BitVec 64) (block : Block) :
    (∀ r p, g.attempt code offset cia blockStart block w = (.error (.refuse r), p) →
      (g.lift code offset cia blockStart block).result = .ok ⟨0, .stop .noDecode, none⟩ ∧
      (g.lift code offset cia blockStart block).block =
        { block with stmts := block.stmts.push (.put (Layout.specialOffset g.layout .cia)
            (.const (if g.arch.is64 then .u64 cia else .u32 (cia.setWidth 32)))) }) ∧
    (g.injector = none → ∀ n hook p,
      g.attempt code offset cia blockStart block w = (.ok (n, hook), p) →
      ∃ l types stmts, (g.lift code offset cia blockStart block).result = .ok l ∧
        (g.lift code offset cia blockStart block).block =
          { block with types := block.types ++ types, stmts := block.stmts ++ stmts } ∧
        l.hook = hook ∧ l.length = (if l.hook.isSome then 20 else 4) ∧
        l.next ≠ .stop .noDecode) := by
  constructor
  · intro r p h
    obtain ⟨hresult, hblock⟩ := lift_of_refusal hcheck hfetch h
    rw [hblock, Block.stopped, (supported_of_check hcheck).layout_eq]
    exact ⟨hresult, rfl⟩
  · intro hinjector n hook p h
    have houtcome := attempt_outcome code offset w cia blockStart block hcheck hinjector
      (show (Block.empty 0).types = #[] from rfl)
    rw [h] at houtcome
    generalize g.straight.attempt code offset cia cia (.empty 0) w = left at houtcome
    cases houtcome with
    | gated raw ext q right h => exact absurd rfl h
    | both hcompleted =>
        obtain ⟨rfl, hspan, -, hending⟩ := hcompleted
        obtain ⟨hresult, hblock⟩ := lift_of_success hcheck hfetch h hending.right_outer
        refine ⟨_, _, _, hresult, hblock, rfl, ?_, hending.next_ne⟩
        cases hook <;> exact hspan

/-- A load with update into its own base is refused, and a sum is not. -/
theorem lift_refuses_update_extends_sum :
    ((Guest.lift { arch := .ppc64 } ⟨#[0xE8, 0x63, 0x00, 0x01]⟩ 0 0x1000 0x1000
        (.empty 0)).result = .ok ⟨0, .stop .noDecode, none⟩ ∧
      (Guest.lift { arch := .ppc64 } ⟨#[0xE8, 0x63, 0x00, 0x01]⟩ 0 0x1000 0x1000
        (.empty 0)).block = { ipOffset := 0, stmts := #[.put 1280 (.const (.u64 0x1000))] }) ∧
    ∃ l types stmts,
      (Guest.lift { arch := .ppc64 } ⟨#[0x7C, 0x64, 0x2E, 0x15]⟩ 0 0x1000 0x1000
        (.empty 0)).result = .ok l ∧
      (Guest.lift { arch := .ppc64 } ⟨#[0x7C, 0x64, 0x2E, 0x15]⟩ 0 0x1000 0x1000
        (.empty 0)).block = { ipOffset := 0, types := #[] ++ types, stmts := #[] ++ stmts } ∧
      l.hook = none ∧ l.length = (if l.hook.isSome then 20 else 4) ∧ l.next ≠ .stop .noDecode :=
  ⟨(lift_refuses_or_extends { arch := .ppc64 } rfl _ 0 ⟨0xE8630001⟩ rfl _ _ _).1 _ _ rfl,
    (lift_refuses_or_extends { arch := .ppc64 } rfl _ 0 ⟨0x7C642E15⟩ rfl _ _ _).2 rfl _ _ _ rfl⟩

end Guest

end PowerLift
