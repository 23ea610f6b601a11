import PowerLift.Proofs.BlockIndependence
import PowerLift.Proofs.ConditionInstruction
import PowerLift.Proofs.Lifting

/-!
# What accepted words do

A word is refused, or its code takes machines to others. Code that may leave for a fault does so in
some machines only; what it does in the others is told here. The guards of an instruction stage
nothing, so that an accepted word has passed them all.
-/

namespace PowerLift

variable {M : Type} {I : Interp M} {env : Env} {p p₁ p₂ p' : Progress} {w : Insn}

namespace Lift

variable {α β : Type} {x : Lift α} {a : α} {b : β} {R R' : Machine M → Prop}
  {F G : Machine M → Machine M} {Q Q' : Machine M → Machine M → Prop} {φ : Prop}

/-! ## Code that may leave -/

/-- Behind `p`, the lifting `x` ends at `p'` with `a`, and its code takes the machines of `R` as `F`
does. -/
structure Leads {M α : Type} (env : Env) (I : Interp M) (p : Progress) (x : Lift α) (a : α)
    (p' : Progress) (R : Machine M → Prop) (F : Machine M → Machine M) : Prop where
  exec_eq : exec env p x = (.ok a, p')
  next_eq : p'.next = p.next
  follows : p.stage.Follows p'.stage
  code : ∃ ss, p'.stage.stmts.toList = p.stage.stmts.toList ++ ss ∧
    ∀ types m, R m → runAll I types ss m = .behind (F m)

theorem Does.leads (h : Does env I p x a p' F) : Leads env I p x a p' R F where
  exec_eq := h.exec_eq
  next_eq := h.next_eq
  follows := h.follows
  code := by
    obtain ⟨ss, hss, hrun⟩ := h.code
    exact ⟨ss, hss, fun types m _ => hrun types m⟩

namespace Leads

theorem andThen {f : α → Lift β} (hx : Leads env I p x a p₁ R F)
    (hf : Leads env I p₁ (f a) b p₂ R' G) (hR : ∀ m, R m → R' (F m)) :
    Leads env I p (x >>= f) b p₂ R (G ∘ F) where
  exec_eq := by
    rw [exec_bind, hx.exec_eq]
    exact hf.exec_eq
  next_eq := hf.next_eq.trans hx.next_eq
  follows := hx.follows.trans hf.follows
  code := by
    obtain ⟨ss, hss, hrun⟩ := hx.code
    obtain ⟨ss', hss', hrun'⟩ := hf.code
    refine ⟨ss ++ ss', by rw [hss', hss, List.append_assoc], fun types m hm => ?_⟩
    rw [runAll_append, hrun types m hm]
    exact hrun' types (F m) (hR m hm)

theorem thenDoes {f : α → Lift β} (hx : Leads env I p x a p₁ R F)
    (hf : Does env I p₁ (f a) b p₂ G) : Leads env I p (x >>= f) b p₂ R (G ∘ F) :=
  have hleads : Leads env I p₁ (f a) b p₂ (fun _ => True) G := hf.leads
  hx.andThen hleads fun _ _ => trivial

theorem congr (h : Leads env I p x a p' R F) (hR : ∀ m, R' m → R m ∧ F m = G m) :
    Leads env I p x a p' R' G where
  exec_eq := h.exec_eq
  next_eq := h.next_eq
  follows := h.follows
  code := by
    obtain ⟨ss, hss, hrun⟩ := h.code
    refine ⟨ss, hss, fun types m hm => ?_⟩
    obtain ⟨hm, hF⟩ := hR m hm
    rw [hrun types m hm, hF]

end Leads

theorem Does.thenLeads {f : α → Lift β} (hx : Does env I p x a p₁ F)
    (hf : Leads env I p₁ (f a) b p₂ R G) :
    Leads env I p (x >>= f) b p₂ (fun m => R (F m)) (G ∘ F) :=
  hx.leads.andThen hf fun _ h => h

/-- An exit that is not taken. -/
theorem exit_leads (hp : p.stage.Level) {guard : Expr} (hguard : p.stage.check guard = .ok .i1)
    (kind : JumpKind) (target : BitVec 64) :
    ∃ p', Leads env I p (exit guard kind target) () p'
      (fun m => (guard.eval I m).isTrue = false) id := by
  have haddress : (env.address (env.cutAddress target)).isAddress = true := by
    unfold Env.address
    split <;> rfl
  let ip := Layout.specialOffset env.layout .cia
  let stmt : Stmt := .exit guard kind (env.address (env.cutAddress target)) ip
  have hexit : p.stage.exit guard kind (env.address (env.cutAddress target)) ip =
      .ok (p.stage.push stmt) := by
    simp only [Stage.exit, hguard, haddress, ok_bind]
    rfl
  refine ⟨{ p with stage := p.stage.push stmt }, ?_, rfl, ⟨hp, Nat.le_refl _, fun _ _ h => h⟩,
    [stmt], Stage.push_stmts _, fun types m hm => ?_⟩
  · change exec env p (onStage fun s => s.exit guard kind _ ip) = _
    exact exec_onStage hexit
  · rw [runAll_single]
    simp only [stmt, Stmt.run, hm]
    rfl

/-! ## Refusal or effect -/

/-- Behind `p`, the lifting `x` refuses its word, or it succeeds and its code takes every machine of
`R` to one that `Q` relates to it. -/
def Achieves (env : Env) (I : Interp M) (p : Progress) (x : Lift Unit) (R : Machine M → Prop)
    (Q : Machine M → Machine M → Prop) : Prop :=
  (∃ r q, exec env p x = (.error (.refuse r), q)) ∨
    ∃ p' F, Leads env I p x () p' R F ∧ ∀ m, R m → Q m (F m)

/-- Behind `p`, a guard refuses the word, or it does nothing and `φ` holds. -/
def Admits (env : Env) (p : Progress) (x : Lift Unit) (φ : Prop) : Prop :=
  (∃ r, exec env p x = (.error (.refuse r), p)) ∨ exec env p x = (.ok (), p) ∧ φ

theorem reservedClear_admits (w : Insn) (bit : Bool) (what : String) :
    Admits env p (reservedClear w bit what) (bit = false) := by
  cases bit with
  | true => exact .inl ⟨_, rfl⟩
  | false => exact .inr ⟨rfl, rfl⟩

theorem invalidIf_admits (w : Insn) (bad : Bool) (what : String) :
    Admits env p (invalidIf w bad what) (bad = false) := by
  cases bad with
  | true => exact .inl ⟨_, rfl⟩
  | false => exact .inr ⟨rfl, rfl⟩

theorem needMode64_admits (w : Insn) (what : String) :
    Admits env p (needMode64 w what) (env.arch = .ppc64) := by
  have hread : exec env p (needMode64 w what) =
      exec env p (if !env.arch.is64 then unrecognized w what else pure ()) := rfl
  rw [Admits, hread]
  cases env.arch with
  | ppc32 => exact .inl ⟨_, rfl⟩
  | ppc64 => exact .inr ⟨rfl, rfl⟩

namespace Achieves

theorem of_leads {x : Lift Unit} (h : Leads env I p x () p' R F) (hQ : ∀ m, R m → Q m (F m)) :
    Achieves env I p x R Q := .inr ⟨p', F, h, hQ⟩

theorem andThen {f : α → Lift Unit} (hx : Leads env I p x a p₁ R F)
    (hf : Achieves env I p₁ (f a) R' Q') (hR : ∀ m, R m → R' (F m))
    (hQ : ∀ m m', R m → Q' (F m) m' → Q m m') : Achieves env I p (x >>= f) R Q := by
  obtain ⟨r, q, hrefused⟩ | ⟨p₂, G, hleads, hG⟩ := hf
  · refine .inl ⟨r, q, ?_⟩
    rw [exec_bind, hx.exec_eq]
    exact hrefused
  · exact .of_leads (hx.andThen hleads hR) fun m hm => hQ m _ hm (hG _ (hR m hm))

/-- A lifting without effect comes first. -/
theorem after {f : α → Lift Unit} (hx : Does env I p x a p₁ id)
    (hf : Achieves env I p₁ (f a) R Q) : Achieves env I p (x >>= f) R Q :=
  .andThen hx.leads hf (fun _ h => h) fun _ _ _ h => h

theorem listed {line : String} {x : Lift Unit} (hp : p.stage.Level)
    (hx : ∀ p' : Progress, p'.stage = p.stage → Achieves env I p' x R Q) :
    Achieves env I p (Lift.listed line >>= fun _ => x) R Q :=
  .after (listed_does hp line) (hx _ rfl)

theorem guard {x : Lift Unit} {f : Unit → Lift Unit} (hx : Admits env p x φ)
    (hf : φ → Achieves env I p (f ()) R Q) : Achieves env I p (x >>= f) R Q := by
  obtain ⟨r, hrefused⟩ | ⟨hpassed, hφ⟩ := hx
  · refine .inl ⟨r, p, ?_⟩
    rw [exec_bind, hrefused]
  · obtain ⟨r, q, hrefused⟩ | ⟨p₂, G, hleads, hG⟩ := hf hφ
    · refine .inl ⟨r, q, ?_⟩
      rw [exec_bind, hpassed]
      exact hrefused
    · refine .of_leads ⟨?_, hleads.next_eq, hleads.follows, hleads.code⟩ hG
      rw [exec_bind, hpassed]
      exact hleads.exec_eq

/-- A guard that is asked for only where `c` holds. -/
theorem guardWhen {c : Prop} [Decidable c] {x : Lift Unit} {f : Unit → Lift Unit}
    (hx : c → Admits env p x φ) (hf : (c → φ) → Achieves env I p (f ()) R Q) :
    Achieves env I p (if c then x >>= f else f ()) R Q := by
  by_cases hc : c
  · rw [if_pos hc]
    exact .guard (hx hc) fun hφ => hf fun _ => hφ
  · rw [if_neg hc]
    exact hf fun h => absurd h hc

/-- A word with a route, whose gates are open or not. -/
theorem instruction {route : Route} (hroute : Route.find? w = some route)
    (hx : Achieves env I p (route.family.lift w) R Q) :
    Achieves env I p (Lift.instruction w) R Q := by
  have hread : exec env p (read : Lift Env) = (.ok env, p) := rfl
  unfold Achieves
  cases hgate : route.closedGate? env.arch env.features with
  | some gate =>
      have hexec : exec env p (Lift.instruction w) = exec env p (missing w gate.extension) := by
        simp only [Lift.instruction, hroute, exec_bind, hread, hgate]
      exact .inl ⟨_, _, hexec⟩
  | none =>
      have hexec : exec env p (Lift.instruction w) = exec env p (route.family.lift w) := by
        simp only [Lift.instruction, hroute, exec_bind, hread, hgate]
      obtain ⟨r, q, hrefused⟩ | ⟨p', F, hleads, hQ⟩ := hx
      · exact .inl ⟨r, q, hexec.trans hrefused⟩
      · exact .inr ⟨p', F, ⟨hexec.trans hleads.exec_eq, hleads.next_eq, hleads.follows,
          hleads.code⟩, hQ⟩

end Achieves

end Lift

/-! ## Whole instructions -/

/-- Some code position has the word `w`, and lifting it there, behind some block, accepts it as `l`
and adds the statements `ss`. -/
inductive Guest.Codes (g : Guest) (w : Insn) (l : Lifted) (ss : List Stmt) : Prop where
  | intro (code : ByteArray) (offset : Nat) (cia blockStart : BitVec 64) (block : Block)
    (hfetch : Insn.fetch? code offset g.info.order = some w)
    (hresult : (g.lift code offset cia blockStart block).result = .ok l)
    (haccepted : l.isRefused = false)
    (hstmts : (g.lift code offset cia blockStart block).block.stmts.toList =
      block.stmts.toList ++ ss)

namespace Guest

variable {g : Guest} {code : ByteArray} {offset : Nat} {cia blockStart : BitVec 64} {block : Block}
  {l : Lifted} {ss : List Stmt}

theorem Codes.of_lift {ipOffset : Nat} (hfetch : Insn.fetch? code offset g.info.order = some w)
    (hresult : (g.lift code offset cia blockStart (.empty ipOffset)).result = .ok l)
    (haccepted : l.isRefused = false) :
    g.Codes w l (g.lift code offset cia blockStart (.empty ipOffset)).block.stmts.toList :=
  ⟨code, offset, cia, blockStart, .empty ipOffset, hfetch, hresult, haccepted, rfl⟩

/-- Requests are announced by rotations. -/
theorem scan_absent (hfetch : Insn.fetch? code offset g.info.order = some w)
    (hopcode : w.opcode ≠ 21 ∧ w.opcode ≠ 30) :
    Announced.scan code offset g.arch g.info.order = .absent := by
  have hne : ∀ raw, raw = 0x5400183E#32 ∨ raw = 0x78001800#32 → w ≠ ⟨raw⟩ := by
    rintro raw (rfl | rfl) rfl <;> revert hopcode <;> decide
  have hstart : Announced.startsWith code offset g.info.order (Hook.preamble g.arch) = false := by
    cases g.arch <;>
      simp only [Hook.preamble, Announced.startsWith, hfetch, Option.some_beq_some,
        Bool.and_eq_false_imp, beq_iff_eq]
    · exact fun h => absurd h (hne _ (.inl rfl))
    · exact fun h => absurd h (hne _ (.inr rfl))
  rw [Announced.scan, hstart]
  rfl

/-- A lifting that succeeds tells its request. -/
theorem hook_of_attempt (hfetch : Insn.fetch? code offset g.info.order = some w)
    (hresult : (g.lift code offset cia blockStart block).result = .ok l) {n : Nat}
    {hook : Option Hook} {p : Progress}
    (h : g.attempt code offset cia blockStart block w = (.ok (n, hook), p)) : l.hook = hook := by
  simp only [lift, check_of_lift hresult, hfetch, h] at hresult
  cases hcommit : p.stage.commit block with
  | error f => simp [hcommit] at hresult
  | ok block' =>
      simp only [hcommit, Except.ok.injEq] at hresult
      rw [← hresult]

/-- A lifting that succeeds has told the request of its word, or refused the word. -/
theorem attempt_of_lift (hfetch : Insn.fetch? code offset g.info.order = some w)
    (hresult : (g.lift code offset cia blockStart block).result = .ok l) :
    (∃ n p, g.attempt code offset cia blockStart block w = (.ok (n, l.hook), p)) ∨
      ∃ r p, g.attempt code offset cia blockStart block w = (.error (.refuse r), p) ∧
        l = ⟨0, .stop .noDecode, none⟩ := by
  have hcheck : g.check = .ok () := check_of_lift hresult
  rcases hattempt : g.attempt code offset cia blockStart block w with ⟨outcome, p⟩
  cases outcome with
  | ok served =>
      obtain ⟨n, hook⟩ := served
      rw [hook_of_attempt hfetch hresult hattempt]
      exact .inl ⟨n, p, rfl⟩
  | error stop =>
      cases stop with
      | fault f => simp [lift, hcheck, hfetch, hattempt] at hresult
      | refuse r =>
          obtain ⟨hrefusal, -⟩ := lift_of_refusal hcheck hfetch hattempt
          exact .inr ⟨r, p, rfl, Except.ok.inj (hresult.symm.trans hrefusal)⟩

/-- The request that is told is the one that stands at the position. -/
theorem attempt_hook {n : Nat} {hook : Option Hook} {p : Progress}
    (h : g.attempt code offset cia blockStart block w = (.ok (n, hook), p)) :
    match Announced.scan code offset g.arch g.info.order with
    | .absent => hook = none
    | .hook request => hook = some request
    | .unknown _ => False := by
  rw [attempt] at h
  cases hscan : Announced.scan code offset g.arch g.info.order with
  | unknown request =>
      rw [hscan] at h
      cases h
  | absent | hook =>
      rw [hscan, body] at h
      obtain ⟨_, _, -, h⟩ := Lift.exists_exec_of_bind h
      obtain ⟨_, _, -, h⟩ := Lift.exists_exec_of_bind h
      obtain ⟨_, _, -, h⟩ := Lift.exists_exec_of_bind h
      cases h
      rfl

/-- The request that is told for an accepted word is the one that stands there. -/
theorem lift_hook (hfetch : Insn.fetch? code offset g.info.order = some w)
    (hresult : (g.lift code offset cia blockStart block).result = .ok l)
    (haccepted : l.isRefused = false) :
    match Announced.scan code offset g.arch g.info.order with
    | .absent => l.hook = none
    | .hook h => l.hook = some h
    | .unknown _ => False := by
  obtain ⟨n, p, hattempt⟩ | ⟨r, p, -, rfl⟩ := attempt_of_lift hfetch hresult
  · exact attempt_hook hattempt
  · contradiction

/-- Nothing is announced at a word that is accepted and serves no request. -/
theorem scan_of_accepted (hfetch : Insn.fetch? code offset g.info.order = some w)
    (hresult : (g.lift code offset cia blockStart block).result = .ok l)
    (haccepted : l.isRefused = false) (hhook : l.hook = none) :
    Announced.scan code offset g.arch g.info.order = .absent := by
  have htold := lift_hook hfetch hresult haccepted
  cases hscan : Announced.scan code offset g.arch g.info.order with
  | absent => rfl
  | hook h =>
      simp only [hscan, hhook] at htold
      cases htold
  | unknown request =>
      simp only [hscan] at htold

/-- What is staged for an ordinary word belongs to the block behind which it is lifted. -/
theorem attempt_outer (hcheck : g.check = .ok ())
    (hscan : Announced.scan code offset g.arch g.info.order = .absent) {n : Nat}
    {hook : Option Hook} {p : Progress}
    (h : g.attempt code offset cia blockStart block w = (.ok (n, hook), p)) :
    p.stage.outer = block.types := by
  rw [attempt_closed w fun hinject => by simp [hscan] at hinject] at h
  have houtcome := attempt_outcome (g := g.closed) code offset w cia blockStart block hcheck rfl
    (show (Block.empty 0).types = #[] from rfl)
  rw [h] at houtcome
  generalize g.closed.straight.attempt code offset cia cia (.empty 0) w = left at houtcome
  cases houtcome with
  | gated raw ext q right h => exact absurd rfl h
  | both hcompleted =>
      obtain ⟨-, -, -, hending⟩ := hcompleted
      exact hending.right_outer

end Guest

/-- An accepted word that serves no request does what its lifting achieves. -/
theorem Guest.Codes.performs {g : Guest} {l : Lifted} {ss : List Stmt} (h : g.Codes w l ss)
    (hhook : l.hook = none) {R : Machine M → Prop} {Q : Machine M → Machine M → Prop}
    (hx : ∀ (env : Env) (p : Progress), env.layout = env.arch → env.arch = g.arch →
      env.host = g.host → p.stage.Level → Lift.Achieves env I p (Lift.instruction w) R Q) :
    l = ⟨4, .continue, none⟩ ∧
      ∀ types m, R m → ∃ m', runAll I types ss m = .behind m' ∧ Q m m' := by
  obtain ⟨code, offset, cia, blockStart, block, hfetch, hresult, haccepted, hstmts⟩ := h
  have hcheck : g.check = .ok () := check_of_lift hresult
  have hscan := scan_of_accepted hfetch hresult haccepted hhook
  let env := g.env cia blockStart
  let marked : Progress := { stage := (Stage.start block).mark cia 4 0 }
  have hattempt : g.attempt code offset cia blockStart block w =
      Lift.exec env marked (Lift.instruction w >>= fun _ => pure (4, none)) := by
    rw [attempt, hscan]
    rfl
  rw [Lift.exec_bind] at hattempt
  obtain ⟨r, q, hrefused⟩ | ⟨p', F, hleads, hQ⟩ :=
    hx env marked (supported_of_check hcheck).layout_eq rfl rfl rfl
  · -- A refused word is not accepted.
    rw [hrefused] at hattempt
    obtain ⟨hrefusal, -⟩ := lift_of_refusal hcheck hfetch hattempt
    rw [hresult] at hrefusal
    obtain rfl := Except.ok.inj hrefusal
    contradiction
  · rw [hleads.exec_eq] at hattempt
    obtain ⟨hlifted, hblock⟩ :=
      lift_of_success hcheck hfetch hattempt (attempt_outer hcheck hscan hattempt)
    obtain ⟨ss', hss', hrun⟩ := hleads.code
    rw [hresult, hleads.next_eq] at hlifted
    refine ⟨Except.ok.inj hlifted, fun types m hm => ⟨F m, ?_, hQ m hm⟩⟩
    -- The statements that were added are the mark and the code.
    obtain rfl : ss = .mark cia 4 0 :: ss' := by
      rw [hblock, Block.extended, Array.toList_append, hss'] at hstmts
      exact (List.append_cancel_left hstmts).symm
    exact hrun types m hm

/-- Words that announce nothing serve no request. -/
theorem Guest.Codes.hook_eq_none {g : Guest} {l : Lifted} {ss : List Stmt} (h : g.Codes w l ss)
    (hopcode : w.opcode ≠ 21 ∧ w.opcode ≠ 30) : l.hook = none := by
  obtain ⟨code, offset, cia, blockStart, block, hfetch, hresult, haccepted, -⟩ := h
  have htold := lift_hook hfetch hresult haccepted
  rwa [scan_absent hfetch hopcode] at htold

theorem Guest.Codes.achieves {g : Guest} {l : Lifted} {ss : List Stmt} (h : g.Codes w l ss)
    (hopcode : w.opcode = 31) {R : Machine M → Prop} {Q : Machine M → Machine M → Prop}
    (hx : ∀ (env : Env) (p : Progress), env.layout = env.arch → env.arch = g.arch →
      env.host = g.host → p.stage.Level → Lift.Achieves env I p (Lift.instruction w) R Q) :
    l = ⟨4, .continue, none⟩ ∧
      ∀ types m, R m → ∃ m', runAll I types ss m = .behind m' ∧ Q m m' :=
  h.performs (h.hook_eq_none (by simp [hopcode])) hx

/-- The guest accepts `w` wherever it stands, and goes on behind it. A rotation may announce a
request, which is another matter. -/
def Guest.Accepts (g : Guest) (w : Insn) : Prop :=
  ∀ code offset cia blockStart block, g.check = .ok () →
    Insn.fetch? code offset g.info.order = some w →
    (w.opcode ∈ [21, 30] → Announced.scan code offset g.arch g.info.order = .absent) →
    (g.lift code offset cia blockStart block).result = .ok ⟨4, .continue, none⟩

theorem Guest.accepts_of_exec {g : Guest}
    (h : ∀ (env : Env) (p : Progress), env.layout = env.arch → env.arch = g.arch →
      env.features = .resolve g.arch g.info.caps → p.stage.Level →
      ∃ p', Lift.exec env p (Lift.instruction w) = (.ok (), p') ∧ p'.next = p.next) :
    g.Accepts w := by
  intro code offset cia blockStart block hcheck hfetch hannounced
  have hscan : Announced.scan code offset g.arch g.info.order = .absent := by
    by_cases hopcode : w.opcode ∈ [21, 30]
    · exact hannounced hopcode
    · exact scan_absent hfetch (by simpa using hopcode)
  let marked : Progress := { stage := (Stage.start block).mark cia 4 0 }
  obtain ⟨p', hexec, hnext⟩ := h (g.env cia blockStart) marked
    (supported_of_check hcheck).layout_eq rfl rfl rfl
  have hattempt : g.attempt code offset cia blockStart block w = (.ok (4, none), p') := by
    have hbody : g.attempt code offset cia blockStart block w =
        Lift.exec (g.env cia blockStart) marked
          (Lift.instruction w >>= fun _ => pure (4, none)) := by
      rw [attempt, hscan]
      rfl
    rw [hbody, Lift.exec_bind, hexec]
    rfl
  obtain ⟨hlifted, -⟩ :=
    lift_of_success hcheck hfetch hattempt (attempt_outer hcheck hscan hattempt)
  rw [hlifted, hnext]

/-- A word that is accepted everywhere is accepted so where it serves no request. -/
theorem Guest.Codes.eq_of_accepts {g : Guest} {l : Lifted} {ss : List Stmt} (h : g.Codes w l ss)
    (haccepts : g.Accepts w) (hhook : l.hook = none) : l = ⟨4, .continue, none⟩ := by
  obtain ⟨code, offset, cia, blockStart, block, hfetch, hresult, haccepted, -⟩ := h
  have hscan := scan_of_accepted hfetch hresult haccepted hhook
  have hlifted := haccepts code offset cia blockStart block (check_of_lift hresult) hfetch
    fun _ => hscan
  exact Except.ok.inj (hresult.symm.trans hlifted)

end PowerLift
