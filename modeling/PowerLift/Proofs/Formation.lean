import PowerLift.Proofs.Simulation

/-!
# Forming blocks keeps their meaning

A formed block does what its instructions do when each is lifted and run by itself: it ends with the
same next address, jump kind, memory and guest state, but for the instruction address. Branches that
the block follows write an instruction address only when they are run by themselves.
-/

namespace PowerLift

/-! ## Words and addresses -/

/-- A word is no truth value. -/
theorem Arch.wordTy_ne_i1 (arch : Arch) : arch.wordTy ≠ .i1 := by
  cases arch <;> decide

namespace Env

theorem ty_address_value (env : Env) (a : BitVec 64) :
    (env.address a).value.ty = env.arch.wordTy := by
  rw [Const.ty_value, Env.address_ty, Arch.wordTy_eq]

theorem address_value_address (env : Env) (a : BitVec 64) :
    (env.address a).value.address = env.cutAddress a := by
  unfold cutAddress address
  cases env.arch.is64 with
  | true => exact BitVec.setWidth_eq a
  | false => exact (low_mask a).symm

/-- A word is an address that needs no cut. -/
theorem cutAddress_setWidth (env : Env) (v : BitVec env.arch.wordTy.bits) :
    env.cutAddress (v.setWidth 64) = v.setWidth 64 := by
  unfold cutAddress
  generalize env.arch = arch at v
  cases arch with
  | ppc64 => rfl
  | ppc32 =>
      have hcut : (v.setWidth 64).setWidth 32 = v :=
        (BitVec.setWidth_setWidth_of_le v (by decide)).trans (BitVec.setWidth_eq v)
      exact (low_mask _).trans (congrArg (BitVec.setWidth 64) hcut)

end Env

/-! ## One instruction -/

variable {M : Type}

/-- The machines behind an instruction, alone and in a block, with what is decoded next. -/
inductive Joined (arch : Arch) (order : ByteOrder) :
    Continuation → Continuation → Machine M → Machine M → Prop where
  | onward {m m' : Machine M} (hmemory : m'.memory = m.memory)
      (hstate : m.state.Agree arch m'.state) : Joined arch order .continue .continue m m'
  | stopped (kind : JumpKind) {m m' : Machine M} (hmemory : m'.memory = m.memory)
      (hstate : m'.state = m.state) : Joined arch order (.stop kind) (.stop kind) m m'
  | followed (kind : JumpKind) (target : BitVec 64) {m m' : Machine M}
      (hmemory : m'.memory = m.memory) (hstate : m.state.Agree arch m'.state)
      (hpc : (m.state.read order (Layout.specialOffset arch .cia) arch.wordTy).setWidth 64 =
        target) : Joined arch order (.stop kind) (.resteer target) m m'

namespace Ending

variable {P : Placement} {q q' : Progress} {I : Interp M} {final : Array Ty} {σ : GuestState}
  {m' : Machine M}

theorem mayResteer (h : Ending P () () q q') {target : BitVec 64}
    (htarget : q'.next = .resteer target) : P.env.mayResteer target = true := by
  cases h with
  | through s htogether hsound => simp [htogether.right_next] at htarget
  | stop s kind e e' houter hsound he hkind hleft hright hnext hnext' => simp [hnext'] at htarget
  | followed s kind target' houter hsound hkind hcut hmay hword hleft hright hnext hnext' =>
      obtain rfl : target' = target := by simpa [hnext'] using htarget
      exact hmay

theorem run_related (h : Ending P () () q q')
    (htypes : ∀ (t : Nat) (τ : Ty), q'.stage.types[t]? = some τ →
      final[P.outer.size + t]? = some τ) (hagree : σ.Agree P.env.arch m'.state) :
    Flow.Related P.env.arch (Joined P.env.arch I.order q.next q'.next)
      (runAll I q.stage.types q.stage.stmts.toList (.start m'.memory σ))
      (runAll I final q'.stage.stmts.toList m') := by
  have hword : P.env.arch.wordTy = P.gprTy := Arch.wordTy_eq _
  cases h with
  | through s htogether hsound =>
      rw [htogether.right] at htypes ⊢
      rw [htogether.left, htogether.left_next, htogether.right_next, Stage.on, Array.toList_map]
      refine (hsound.code.run_shift htypes (.start hagree)).mono fun _ _ h => ?_
      exact .onward h.memory h.state
  | stop s kind e e' houter hsound he hkind hleft hright hnext hnext' =>
      rw [hright] at htypes ⊢
      rw [hleft, hnext, hnext', Stage.push_stmts, Stage.push_stmts, Stage.push_types, runAll_append,
        runAll_append, Stage.on, Array.toList_map]
      refine (hsound.code.run_shift htypes (.start hagree)).andThen fun m m' h => ?_
      -- Both write the same instruction address, so the states are equal again.
      have hvalue : (e.eval I m).ty = P.env.arch.wordTy := by rw [hword, he.hasTy.eval_ty h.typed]
      rw [runAll_single, runAll_single, Stmt.run, Stmt.run, he.shift_eq, Expr.eval_shift h he.hasTy]
      exact .behind (.stopped kind h.memory (h.state.writeCia_eq I.order hvalue).symm)
  | followed s kind target houter hsound hkind hcut hmay _ hleft hright hnext hnext' =>
      rw [hright] at htypes ⊢
      rw [hleft, hnext, hnext', Stage.push_stmts, Stage.push_types, runAll_append, Stage.on,
        Array.toList_map, ← Flow.andThen_behind (runAll I final _ m')]
      refine (hsound.code.run_shift htypes (.start hagree)).andThen fun m m' h => ?_
      -- Only the lifting alone writes the target; read back, it is where the block goes on.
      have hvalue := P.env.ty_address_value target
      rw [runAll_single]
      refine .behind (.followed kind target h.memory (h.state.writeCia I.order hvalue) ?_)
      calc _ = (P.env.address target).value.address :=
            GuestState.read_write_address hvalue P.env.arch.wordTy_ne_i1
        _ = target := (P.env.address_value_address target).trans hcut

end Ending

/-- The reports on an instruction, alone and in a block, whose code does the same. -/
structure InStep (arch : Arch) (block : Block) (left right : Report) (lifted lifted' : Lifted)
    (types : Array Ty) (stmts : Array Stmt) : Prop where
  left_result : left.result = .ok lifted
  right_result : right.result = .ok lifted'
  length_eq : lifted'.length = lifted.length
  block_eq : right.block =
    { block with types := block.types ++ types, stmts := block.stmts ++ stmts }
  related : ∀ {M : Type} (I : Interp M) (final : Array Ty) (σ : GuestState) (m' : Machine M),
    (∀ (t : Nat) (τ : Ty), (block.types ++ types)[t]? = some τ → final[t]? = some τ) →
    σ.Agree arch m'.state →
    Flow.Related arch (Joined arch I.order lifted.next lifted'.next)
      (runAll I left.block.types left.block.stmts.toList (.start m'.memory σ))
      (runAll I final stmts.toList m')

namespace Answers

variable {P : Placement} {single block : Block} {left right : Report}

theorem inStep (h : Answers P single block left right) (hsingle : single.types = #[])
    (hempty : single.stmts = #[]) (houter : P.outer = block.types) :
    ∃ lifted lifted' types stmts,
      InStep P.env.arch block left right lifted lifted' types stmts ∧
      ∀ target, lifted'.next = .resteer target → P.env.mayResteer target = true := by
  cases h with
  | refused hleft hleft_block hright hright_block =>
      refine ⟨_, _, #[], #[.put (Layout.specialOffset P.env.arch .cia) (P.env.imm P.env.cia)],
        ⟨hleft, hright, rfl, ?_, ?_⟩, by simp⟩
      · simpa [Block.stopped] using hright_block
      · intro M I final σ m' _ hagree
        have hvalue := P.env.ty_address_value P.env.cia
        rw [hleft_block, Block.stopped, hempty]
        refine .behind (.stopped .noDecode rfl ?_)
        exact (hagree.writeCia_eq I.order hvalue).symm
  | lifted q q' hook hmarked hending hleft hleft_block hright hright_block =>
      refine ⟨_, _, _, _, ⟨hleft, hright, rfl, hright_block, ?_⟩, fun _ => hending.mayResteer⟩
      intro M I final σ m' hfinal hagree
      rw [hleft_block, Block.extended, hsingle, hempty, Array.empty_append, Array.empty_append]
      refine hending.run_related (fun t τ ht => hfinal _ _ ?_) hagree
      rw [houter, Array.getElem?_append_right (by omega), Nat.add_sub_cancel_left, ht]

end Answers

/-! ## Sessions -/

namespace Session

variable {α β : Type}

/-- A command that can end with a result. -/
def Returns (m : Session α) (a : α) : Prop :=
  ∃ before behind : Transcript, ExceptT.run m before = (.ok a, behind)

theorem returns_bind {x : Session α} {f : α → Session β} {b : β} (h : Returns (x >>= f) b) :
    ∃ a, Returns x a ∧ Returns (f a) b := by
  obtain ⟨before, behind, h⟩ := h
  change (match x before with | (r, t) => ExceptT.bindCont f r t) = _ at h
  cases hx : x before with
  | mk r t =>
      rw [hx] at h
      cases r with
      | error e => cases h
      | ok a => exact ⟨a, ⟨before, t, hx⟩, ⟨t, behind, h⟩⟩

theorem returns_pure {a b : α} (h : Returns (pure a : Session α) b) : a = b := by
  obtain ⟨before, behind, h⟩ := h
  cases h
  rfl

theorem returns_ofFault {r : Except Fault α} {a : α} (h : Returns (ofFault r) a) : r = .ok a := by
  obtain ⟨before, behind, h⟩ := h
  cases r with
  | error f => cases h
  | ok b =>
      cases h
      rfl

end Session

namespace Guest

variable {g : Guest} {image : Image} {start addr : BitVec 64} {budget : Nat}
  {formed formed' : Formed}

open Session (Returns returns_bind returns_pure returns_ofFault)

/-- Which branches a block follows. -/
def follows (image : Image) (budget : Nat) (target : BitVec 64) : Bool :=
  decide (0 < budget) && (image.offset? target).isSome

/-- What one more instruction does to a block that is being formed. -/
inductive Extends (g : Guest) (image : Image) (start : BitVec 64) (budget : Nat)
    (addr : BitVec 64) (formed formed' : Formed) : Prop where
  | outside (haddr : image.offset? addr = none)
      (hformed : formed' = { formed with block := g.endAt formed.block addr })
  | onward (report : Report) (lifted : Lifted)
      (hstep : g.step image addr start (follows image budget) formed.block = some report)
      (hresult : report.result = .ok lifted) (hnext : lifted.next = .continue)
      (hrest : Returns (g.extend image start budget (addr + .ofNat 64 lifted.length)
        ⟨report.block, formed.insns + 1⟩) formed')
  | followed (report : Report) (lifted : Lifted) (target : BitVec 64)
      (hstep : g.step image addr start (follows image budget) formed.block = some report)
      (hresult : report.result = .ok lifted) (hnext : lifted.next = .resteer target)
      (hrest : Returns (g.extend image start budget target ⟨report.block, formed.insns + 1⟩)
        formed')
  | stopped (report : Report) (lifted : Lifted) (kind : JumpKind)
      (hstep : g.step image addr start (follows image budget) formed.block = some report)
      (hresult : report.result = .ok lifted) (hnext : lifted.next = .stop kind)
      (hformed : formed' = ⟨{ report.block with
        next := some (.get report.block.ipOffset g.arch.wordTy), kind }, formed.insns + 1⟩)

theorem extend_extends (h : Returns (g.extend image start (budget + 1) addr formed) formed') :
    Extends g image start budget addr formed formed' := by
  have hfollows : (fun target => decide (0 < budget) && (image.offset? target).isSome) =
      follows image budget := rfl
  simp only [extend, hfollows] at h
  cases hstep : g.step image addr start (follows image budget) formed.block with
  | none =>
      simp only [hstep] at h
      obtain ⟨_, _, h⟩ := returns_bind h
      refine .outside ?_ (returns_pure h).symm
      simpa [step] using hstep
  | some report =>
      simp only [hstep] at h
      obtain ⟨_, _, h⟩ := returns_bind h
      obtain ⟨lifted, hresult, h⟩ := returns_bind h
      have hresult := returns_ofFault hresult
      cases hnext : lifted.next with
      | «continue» =>
          simp only [hnext] at h
          obtain ⟨behind, hbehind, h⟩ := returns_bind h
          have hbehind := returns_ofFault hbehind
          -- An address beyond the last one is a fault, so the sum has not wrapped.
          obtain ⟨-, rfl⟩ := Address.add_eq_ok_iff.mp hbehind
          exact .onward report lifted hstep hresult hnext h
      | resteer target =>
          simp only [hnext] at h
          exact .followed report lifted target hstep hresult hnext h
      | stop kind =>
          simp only [hnext] at h
          exact .stopped report lifted kind hstep hresult hnext (returns_pure h).symm

/-- The code that forming has added to a block means what `n` instructions mean. -/
structure Continues (g : Guest) (image : Image) (addr : BitVec 64) (formed formed' : Formed)
    (n : Nat) (types : Array Ty) (stmts : Array Stmt) : Prop where
  insns_eq : formed'.insns = formed.insns + n
  types_eq : formed'.block.types = formed.block.types ++ types
  stmts_eq : formed'.block.stmts = formed.block.stmts ++ stmts
  same : ∀ {M : Type} (I : Interp M) (kind : JumpKind) (σ : GuestState) (m' : Machine M),
    (n = 0 → kind = .boring) → σ.Agree g.arch m'.state →
    ∃ l l', g.interpret I image n addr kind m'.memory σ = some l ∧
      formed'.block.leave I (runAll I formed'.block.types stmts.toList m') = some l' ∧
      l.Same g.arch l'

theorem endAt_continues (g : Guest) (image : Image) (addr : BitVec 64) (formed : Formed) :
    Continues g image addr formed { formed with block := g.endAt formed.block addr } 0 #[] #[] where
  insns_eq := rfl
  types_eq := by simp [endAt]
  stmts_eq := by simp [endAt]
  same I kind σ m' hkind hagree := by
    refine ⟨_, _, rfl, rfl, ?_, (hkind rfl).symm, rfl, hagree⟩
    exact (g.env addr addr).address_value_address addr

/-- A step that succeeds lifts a word that has one meaning, alone and behind the block. -/
theorem step_answers (hinjector : g.injector = none) {follow : BitVec 64 → Bool} {block : Block}
    {report : Report} {lifted : Lifted}
    (hstep : g.step image addr start follow block = some report)
    (hresult : report.result = .ok lifted) :
    ∃ (offset : Nat) (hcheck : { g with mayResteer := follow }.check = .ok ()) (w : Insn)
      (left : Report), g.step image addr addr (fun _ => false) g.emptyBlock = some left ∧
        Answers (placementAt hcheck image.bytes offset addr start block w) g.emptyBlock block left
          report := by
  obtain ⟨offset, hoffset, rfl⟩ := Option.map_eq_some_iff.mp hstep
  have hinjector' : { g with mayResteer := follow }.injector = none := hinjector
  obtain ⟨hcheck, w, hanswers⟩ :=
    answers_of_lift hinjector' hresult (show g.emptyBlock.types = #[] from rfl)
  exact ⟨offset, hcheck, w, _, by rw [step, hoffset]; rfl, hanswers⟩

/-- One instruction, lifted alone and in a block that is being formed. -/
theorem step_inStep (hinjector : g.injector = none) {follow : BitVec 64 → Bool} {block : Block}
    {report : Report} {lifted' : Lifted}
    (hstep : g.step image addr start follow block = some report)
    (hresult : report.result = .ok lifted') :
    ∃ left lifted types stmts, g.step image addr addr (fun _ => false) g.emptyBlock = some left ∧
      InStep g.arch block left report lifted lifted' types stmts ∧
      (∀ target, lifted'.next = .resteer target → follow target = true) ∧
      g.layout = g.arch := by
  obtain ⟨offset, hcheck, w, left, hleft, hanswers⟩ := step_answers hinjector hstep hresult
  obtain ⟨lifted, lifted'', types, stmts, hinStep, hfollow⟩ := hanswers.inStep rfl rfl rfl
  obtain rfl : lifted'' = lifted' := Except.ok.inj (hinStep.right_result.symm.trans hresult)
  exact ⟨left, lifted, types, stmts, hleft, hinStep, hfollow,
    (supported_of_check hcheck).layout_eq⟩

section

variable {left report : Report} {lifted lifted' : Lifted} {types types₁ : Array Ty}
  {stmts stmts₁ : Array Stmt} {n : Nat}

/-- The run of an instruction by itself. -/
theorem interpret_succ {M : Type} (I : Interp M) (kind : JumpKind) (memory : M) (σ : GuestState)
    (hleft : g.step image addr addr (fun _ => false) g.emptyBlock = some left)
    (hresult : left.result = .ok lifted) :
    g.interpret I image (n + 1) addr kind memory σ =
      match runAll I left.block.types left.block.stmts.toList (.start memory σ) with
      | .left l => some l
      | .behind m =>
          g.interpret I image n (g.arrive I addr lifted m).1 (g.arrive I addr lifted m).2 m.memory
            m.state := by
  simp only [interpret, hleft, hresult, Except.toOption, Option.bind_eq_bind, Option.bind_some]
  rfl

theorem arrive_continue {M : Type} (I : Interp M) {m : Machine M}
    (hnext : lifted.next = .continue) :
    g.arrive I addr lifted m = (addr + .ofNat 64 lifted.length, .boring) := by
  simp only [arrive, hnext]

theorem arrive_stop {M : Type} (I : Interp M) {m : Machine M} {kind : JumpKind}
    (hnext : lifted.next = .stop kind) :
    g.arrive I addr lifted m =
      ((m.state.read I.order g.emptyBlock.ipOffset g.arch.wordTy).setWidth 64, kind) := by
  simp only [arrive, hnext]

/-- An instruction behind which the block goes on at a fixed address. -/
theorem Continues.cons
    (hleft : g.step image addr addr (fun _ => false) g.emptyBlock = some left)
    (hin : InStep g.arch formed.block left report lifted lifted' types stmts) {next : BitVec 64}
    (hrest : Continues g image next ⟨report.block, formed.insns + 1⟩ formed' n types₁ stmts₁)
    (harrive : ∀ {M : Type} (I : Interp M) (m m' : Machine M),
      Joined g.arch I.order lifted.next lifted'.next m m' →
      ∃ kind, g.arrive I addr lifted m = (next, kind) ∧ (n = 0 → kind = .boring) ∧
        m'.memory = m.memory ∧ m.state.Agree g.arch m'.state) :
    Continues g image addr formed formed' (n + 1) (types ++ types₁) (stmts ++ stmts₁) where
  insns_eq := by
    have hinsns : formed'.insns = formed.insns + 1 + n := hrest.insns_eq
    omega
  types_eq := by rw [hrest.types_eq, hin.block_eq, Array.append_assoc]
  stmts_eq := by rw [hrest.stmts_eq, hin.block_eq, Array.append_assoc]
  same I kind σ m' _ hagree := by
    -- Statements look types up in the final block, where these are still the same.
    have hfinal : ∀ (t : Nat) (τ : Ty), (formed.block.types ++ types)[t]? = some τ →
        formed'.block.types[t]? = some τ := by
      intro t τ ht
      obtain ⟨hlt, -⟩ := Array.getElem?_eq_some_iff.mp ht
      rw [hrest.types_eq, hin.block_eq, Array.getElem?_append_left hlt, ht]
    have hrelated := hin.related I formed'.block.types σ m' hfinal hagree
    rw [interpret_succ I kind m'.memory σ hleft hin.left_result, Array.toList_append,
      runAll_append]
    generalize runAll I left.block.types left.block.stmts.toList (.start m'.memory σ) = flow
      at hrelated
    generalize runAll I formed'.block.types stmts.toList m' = flow' at hrelated
    cases hrelated with
    | left h => exact ⟨_, _, rfl, rfl, h⟩
    | behind h =>
        obtain ⟨kind, hnext, hkind, hmemory, hstate⟩ := harrive I _ _ h
        simp only [hnext, ← hmemory]
        exact hrest.same I kind _ _ hkind hstate

/-- An instruction that ends the block. -/
theorem Continues.stop
    (hleft : g.step image addr addr (fun _ => false) g.emptyBlock = some left)
    (hin : InStep g.arch formed.block left report lifted lifted' types stmts) {kind : JumpKind}
    (hnext : lifted'.next = .stop kind) (hip : formed.block.ipOffset = g.emptyBlock.ipOffset) :
    Continues g image addr formed ⟨{ report.block with
      next := some (.get report.block.ipOffset g.arch.wordTy), kind }, formed.insns + 1⟩ 1 types
      stmts where
  insns_eq := rfl
  types_eq := by rw [hin.block_eq]
  stmts_eq := by rw [hin.block_eq]
  same I kind' σ m' _ hagree := by
    have hrelated := hin.related I report.block.types σ m' (by simp [hin.block_eq]) hagree
    rw [interpret_succ I kind' m'.memory σ hleft hin.left_result]
    generalize runAll I left.block.types left.block.stmts.toList (.start m'.memory σ) = flow
      at hrelated
    simp only
    generalize runAll I report.block.types stmts.toList m' = flow' at hrelated
    cases hrelated with
    | left h => exact ⟨_, _, rfl, rfl, h⟩
    | behind h =>
        rw [hnext] at h
        generalize hnext : lifted.next = next at h
        cases h with
        | stopped kind hmemory hstate =>
            simp only [arrive_stop I hnext]
            refine ⟨_, _, rfl, rfl, ?_, rfl, hmemory, hstate ▸ .refl _ _⟩
            have hreport : report.block.ipOffset = g.emptyBlock.ipOffset := by
              rw [hin.block_eq, hip]
            simp only [Expr.eval, Value.address, hstate, hreport]
            exact ((g.env _ _).cutAddress_setWidth _).symm

end

/-- Forming adds code that means what the instructions mean, one at a time. -/
theorem extend_continues (hinjector : g.injector = none)
    (hip : formed.block.ipOffset = g.emptyBlock.ipOffset)
    (h : Returns (g.extend image start budget addr formed) formed') :
    ∃ n types stmts, Continues g image addr formed formed' n types stmts ∧
      (follows image budget addr = true → n ≠ 0) := by
  -- On the instructions that the block may still take. A branch is followed only where one more
  -- instruction is sure to come, so its jump kind is never that of the block.
  induction budget generalizing addr formed with
  | zero =>
      obtain rfl := returns_pure h
      exact ⟨0, #[], #[], endAt_continues g image addr formed, by simp [follows]⟩
  | succ budget ih =>
      cases extend_extends h with
      | outside haddr hformed =>
          subst hformed
          exact ⟨0, #[], #[], endAt_continues g image addr formed, by simp [follows, haddr]⟩
      | stopped report lifted kind hstep hresult hnext hformed =>
          subst hformed
          obtain ⟨left, _, types, stmts, hleft, hin, -, -⟩ := step_inStep hinjector hstep hresult
          exact ⟨1, types, stmts, .stop hleft hin hnext hip, by simp⟩
      | onward report lifted hstep hresult hnext hrest =>
          obtain ⟨left, alone, types, stmts, hleft, hin, -, hlayout⟩ :=
            step_inStep hinjector hstep hresult
          obtain ⟨n, types₁, stmts₁, hrest, -⟩ := ih (by rw [hin.block_eq]; exact hip) hrest
          refine ⟨n + 1, _, _, .cons hleft hin hrest fun I m m' hjoined => ?_, by simp⟩
          rw [hnext] at hjoined
          generalize halone : alone.next = next at hjoined
          cases hjoined with
          | onward hmemory hstate =>
              rw [arrive_continue I halone, hin.length_eq]
              exact ⟨.boring, rfl, fun _ => rfl, hmemory, hstate⟩
      | followed report lifted target hstep hresult hnext hrest =>
          obtain ⟨left, alone, types, stmts, hleft, hin, hfollow, hlayout⟩ :=
            step_inStep hinjector hstep hresult
          obtain ⟨n, types₁, stmts₁, hrest, hpos⟩ := ih (by rw [hin.block_eq]; exact hip) hrest
          have hn : n ≠ 0 := hpos (hfollow target hnext)
          refine ⟨n + 1, _, _, .cons hleft hin hrest fun I m m' hjoined => ?_, by simp⟩
          rw [hnext] at hjoined
          generalize halone : alone.next = next at hjoined
          cases hjoined with
          | followed kind target hmemory hstate hpc =>
              rw [arrive_stop I halone, emptyBlock, hlayout]
              exact ⟨kind, Prod.ext hpc rfl, fun h => absurd h hn, hmemory, hstate⟩

/-- A formed block does what its instructions do one at a time. -/
theorem form_interprets (g : Guest) (hinjector : g.injector = none) (image : Image)
    (start : BitVec 64) (maxInsns : Nat) (formed : Formed)
    (hform : (g.form image start maxInsns).exec.1 = .ok formed) {M : Type} (I : Interp M)
    (memory : M) (state : GuestState) :
    ∃ l l', g.interpret I image formed.insns start .boring memory state = some l ∧
      formed.block.run I memory state = some l' ∧ l.Same g.arch l' := by
  have hreturns : Returns (g.form image start maxInsns) formed := ⟨{}, _, Prod.ext hform rfl⟩
  obtain ⟨n, types, stmts, hcontinues, -⟩ := extend_continues hinjector rfl hreturns
  obtain ⟨l, l', hleft, hright, hsame⟩ :=
    hcontinues.same I .boring state (.start memory state) (fun _ => rfl) (.refl _ _)
  obtain rfl : formed.insns = n := by simpa using hcontinues.insns_eq
  have hstmts : formed.block.stmts = stmts := by
    simpa [emptyBlock, Block.empty] using hcontinues.stmts_eq
  exact ⟨l, l', hleft, by rw [Block.run, hstmts]; exact hright, hsame⟩

/-- A sum, a branch over the next word, and a return. -/
theorem form_interprets_branch :
    let image : Image :=
      ⟨0x1000, ⟨#[0x38, 0x63, 0, 1, 0x48, 0, 0, 8, 0, 0, 0, 0, 0x4E, 0x80, 0, 0x20]⟩⟩
    ∃ formed, (form { arch := .ppc64 } image 0x1000 8).exec.1 = .ok formed ∧ formed.insns = 3 ∧
      ∀ (M : Type) (I : Interp M) (memory : M) (state : GuestState),
        ∃ l l', interpret I { arch := .ppc64 } image 3 0x1000 .boring memory state = some l ∧
          formed.block.run I memory state = some l' ∧ l.Same .ppc64 l' := by
  intro image
  have hinsns : (form { arch := .ppc64 } image 0x1000 8).exec.1.toOption.map Formed.insns =
      some 3 := by decide +kernel
  cases hform : (form { arch := .ppc64 } image 0x1000 8).exec.1 with
  | error f =>
      rw [hform] at hinsns
      contradiction
  | ok formed =>
      rw [hform] at hinsns
      have hthree : formed.insns = 3 := Option.some.inj hinsns
      refine ⟨formed, rfl, hthree, fun M I memory state => ?_⟩
      have h := form_interprets { arch := .ppc64 } rfl image 0x1000 8 formed hform I memory state
      rwa [hthree] at h

end Guest

end PowerLift
