import PowerLift.Proofs.WellFormed

/-!
# Accesses by whole registers

Lifted code reads and writes the guest state by whole slots, or by the floating-point half of a
vector-scalar register, so two accesses name the same register, a half and its vector, or bytes
apart. It reads and writes memory at addresses of the word type of its processor only.
-/

namespace PowerLift

/-! ## Places that code may name -/

namespace Layout

/-- A whole slot, or the floating-point half of a vector-scalar register. -/
inductive Named (arch : Arch) (host : ByteOrder) (p : Place) : Prop where
  | slot (s : Slot) (hp : locate arch s = .ok p)
  | half (i : Nat) (hp : fpr arch i host = .ok p)

/-- The floating-point half of a vector-scalar register, and the register. -/
def HalfOf (arch : Arch) (host : ByteOrder) (p q : Place) : Prop :=
  ∃ i, fpr arch i host = .ok p ∧ vsr arch i = .ok q

/-- How two accesses may lie: at the same place, one in the other as a half in its vector, or apart. -/
inductive Compatible (arch : Arch) (host : ByteOrder) (p q : Place) : Prop where
  | same (h : p = q)
  | inner (h : HalfOf arch host p q)
  | outer (h : HalfOf arch host q p)
  | apart (h : p.Disjoint q)

variable {arch : Arch} {host : ByteOrder} {p q : Place}

theorem Register.named (h : Register arch host p) : Named arch host p := by
  cases h with
  | slot s hs hp => exact .slot s hp
  | half i hp => exact .half i hp

theorem Compatible.symm (h : Compatible arch host p q) : Compatible arch host q p := by
  cases h with
  | same h => exact .same h.symm
  | inner h => exact .outer h
  | outer h => exact .inner h
  | apart h => exact .apart h.symm

/-- A half lies within the register that it is a half of. -/
theorem fpr_within {i : Nat} (h : fpr arch i host = .ok p) :
    ∃ q, vsr arch i = .ok q ∧ q.offset ≤ p.offset ∧
      p.offset + p.ty.bytes ≤ q.offset + q.ty.bytes := by
  obtain ⟨hi, rfl⟩ := fpr_eq_ok h
  have hvsr : vsr arch i = .ok ⟨vsrBase arch + i * 16, .v128⟩ := by
    simp [vsr, locate, offset, show i < 64 by omega, Except.map, Slot.ty]
  refine ⟨_, hvsr, ?_⟩
  cases host <;> simp [Ty.bytes, Ty.bits]

theorem Compatible.ofHalf {s : Slot} {i : Nat} (hp : locate arch s = .ok p)
    (hq : fpr arch i host = .ok q) : Compatible arch host q p := by
  obtain ⟨v, hv, hlow, hhigh⟩ := fpr_within hq
  by_cases hs : s = .vsr i
  · subst hs
    exact .inner ⟨i, hq, hp⟩
  · -- What is off the vector is off its half.
    rcases locate_disjoint hp hv hs with hle | hle
    · exact .apart (.inr (by omega))
    · exact .apart (.inl (by omega))

/-- Any two named places are the same, a half and its vector, or apart. -/
theorem Named.compatible (hp : Named arch host p) (hq : Named arch host q) :
    Compatible arch host p q := by
  cases hp with
  | slot s hp =>
      cases hq with
      | slot s' hq =>
          by_cases hs : s = s'
          · subst hs
            exact .same (Except.ok.inj (hp.symm.trans hq))
          · exact .apart (locate_disjoint hp hq hs)
      | half i hq => exact (Compatible.ofHalf hp hq).symm
  | half i hp =>
      cases hq with
      | slot s hq => exact .ofHalf hq hp
      | half j hq =>
          by_cases hij : i = j
          · subst hij
            exact .same (Except.ok.inj (hp.symm.trans hq))
          · obtain ⟨v, hv, hlow, hhigh⟩ := fpr_within hp
            obtain ⟨u, hu, hlow', hhigh'⟩ := fpr_within hq
            have hne : Slot.vsr i ≠ .vsr j := fun h => hij (Slot.vsr.inj h)
            rcases locate_disjoint hv hu hne with hle | hle
            · exact .apart (.inl (by omega))
            · exact .apart (.inr (by omega))

end Layout

/-! ## Parts of expressions -/

namespace Expr

mutual

/-- An expression and all expressions in it. -/
def parts : Expr → List Expr
  | .get offset ty => [.get offset ty]
  | .tmp t => [.tmp t]
  | .const c => [.const c]
  | .apply op args => .apply op args :: partsOf args
  | .load order ty addr => .load order ty addr :: parts addr
  | .ite cond yes no => .ite cond yes no :: (parts cond ++ parts yes ++ parts no)
  | .call helper ret args => .call helper ret args :: partsOf args

/-- Several expressions and all expressions in them. -/
def partsOf : List Expr → List Expr
  | [] => []
  | e :: es => parts e ++ partsOf es

end

variable {env : Env} {scope scope' : Nat → Option Ty}

mutual

/-- Every part of a typed expression is typed. -/
theorem HasTy.parts : ∀ {e : Expr} {τ : Ty}, HasTy env scope e τ →
    ∀ d ∈ e.parts, ∃ ty, HasTy env scope d ty
  | .get _ _, τ, h, d, hd | .tmp _, τ, h, d, hd | .const _, τ, h, d, hd => by
      obtain rfl := List.mem_singleton.mp hd
      exact ⟨τ, h⟩
  | .apply _ _, τ, h, d, hd => by
      rcases List.mem_cons.mp hd with rfl | hd
      · exact ⟨τ, h⟩
      · exact HaveTys.partsOf h.2 d hd
  | .load _ _ _, τ, h, d, hd => by
      rcases List.mem_cons.mp hd with rfl | hd
      · exact ⟨τ, h⟩
      · exact HasTy.parts h.2.2 d hd
  | .ite _ _ _, τ, h, d, hd => by
      rcases List.mem_cons.mp hd with rfl | hd
      · exact ⟨τ, h⟩
      · simp only [List.mem_append] at hd
        rcases hd with (hd | hd) | hd
        · exact HasTy.parts h.1 d hd
        · exact HasTy.parts h.2.1 d hd
        · exact HasTy.parts h.2.2 d hd
  | .call _ _ _, τ, h, d, hd => by
      rcases List.mem_cons.mp hd with rfl | hd
      · exact ⟨τ, h⟩
      · exact HaveTys.partsOf h.2.choose_spec d hd

theorem HaveTys.partsOf : ∀ {es : List Expr} {tys : List Ty}, HaveTys env scope es tys →
    ∀ d ∈ partsOf es, ∃ ty, HasTy env scope d ty
  | [], [], _, _, hd => by simp [Expr.partsOf] at hd
  | _ :: _, _ :: _, h, d, hd => by
      rcases List.mem_append.mp hd with hd | hd
      · exact HasTy.parts h.1 d hd
      · exact HaveTys.partsOf h.2 d hd

end

variable {k : Nat}

mutual

/-- Renumbered expressions keep their types. -/
theorem HasTy.shift (hscope : ∀ t ty, scope t = some ty → scope' (k + t) = some ty) :
    ∀ {e : Expr} {τ : Ty}, HasTy env scope e τ → HasTy env scope' (e.shift k) τ
  | .get _ _, _, h | .const _, _, h => h
  | .tmp t, _, h => hscope t _ h
  | .apply _ _, _, h => ⟨h.1, HaveTys.shiftAll hscope h.2⟩
  | .load _ _ _, _, h => ⟨h.1, h.2.1, HasTy.shift hscope h.2.2⟩
  | .ite _ _ _, _, h =>
      ⟨HasTy.shift hscope h.1, HasTy.shift hscope h.2.1, HasTy.shift hscope h.2.2⟩
  | .call _ _ _, _, h => ⟨h.1, h.2.choose, HaveTys.shiftAll hscope h.2.choose_spec⟩

theorem HaveTys.shiftAll (hscope : ∀ t ty, scope t = some ty → scope' (k + t) = some ty) :
    ∀ {es : List Expr} {types : List Ty}, HaveTys env scope es types →
      HaveTys env scope' (shiftAll k es) types
  | [], [], _ => trivial
  | _ :: _, _ :: _, h => ⟨HasTy.shift hscope h.1, HaveTys.shiftAll hscope h.2⟩

end

end Expr

/-! ## Accesses of statements -/

namespace Stmt

/-- The expressions that a statement is made of. -/
def operands : Stmt → List Expr
  | .mark _ _ _ | .fence => []
  | .bind _ value | .put _ value => [value]
  | .store _ addr value | .storeConditional _ _ addr value => [addr, value]
  | .exit guard _ _ _ => [guard]
  | .loadLinked _ _ addr => [addr]
  | .call c => c.guard :: c.args ++ (c.memory.map (·.addr)).toList
  | .hint base _ next => [base, next]

/-- All expressions in a statement. -/
def exprs (stmt : Stmt) : List Expr := stmt.operands.flatMap Expr.parts

/-- The addresses that a statement itself gives, those of memory reads in its expressions apart. -/
def addresses : Stmt → List Expr
  | .store _ addr _ | .storeConditional _ _ addr _ | .loadLinked _ _ addr => [addr]
  | .call c => (c.memory.map (·.addr)).toList
  | .hint base _ next => [base, next]
  | .mark _ _ _ | .bind _ _ | .put _ _ | .exit _ _ _ _ | .fence => []

end Stmt

/-- The places of the guest state that code reads or writes. -/
inductive Touches (types : Nat → Except Fault Ty) (stmts : List Stmt) : Layout.Place → Prop where
  | get {stmt : Stmt} {offset : Nat} {ty : Ty} (hstmt : stmt ∈ stmts)
      (hget : .get offset ty ∈ stmt.exprs) : Touches types stmts ⟨offset, ty⟩
  | put {offset : Nat} {e : Expr} {ty : Ty} (hstmt : .put offset e ∈ stmts)
      (hty : e.check types = .ok ty) : Touches types stmts ⟨offset, ty⟩

/-- Code that accesses the guest state by whole registers and memory at addresses of the word type,
over temporaries of the types given. -/
structure WholeAccesses (arch : Arch) (host : ByteOrder) (types : Nat → Except Fault Ty)
    (stmts : List Stmt) : Prop where
  puts : ∀ offset e, .put offset e ∈ stmts → ∃ ty, e.check types = .ok ty
  named : ∀ p, Touches types stmts p → Layout.Named arch host p
  compatible : ∀ p q, Touches types stmts p → Touches types stmts q →
    Layout.Compatible arch host p q
  loads : ∀ stmt ∈ stmts, ∀ order ty addr, .load order ty addr ∈ stmt.exprs →
    addr.check types = .ok arch.wordTy
  addresses : ∀ stmt ∈ stmts, ∀ addr ∈ stmt.addresses, addr.check types = .ok arch.wordTy
  exits : ∀ guard kind target ipOffset, .exit guard kind target ipOffset ∈ stmts →
    Layout.locate arch (.special .cia) = .ok ⟨ipOffset, target.ty⟩
  calls : ∀ c, .call c ∈ stmts → c.state = [] ∧ c.memory = none

namespace Stmt

/-- Statements that access whole registers, and memory at addresses of the word type. -/
def Whole (env : Env) (scope : Nat → Option Ty) : Stmt → Prop
  | .mark _ _ _ | .fence => True
  | .bind _ value => ∃ ty, value.HasTy env scope ty
  | .put offset value =>
      ∃ ty, value.HasTy env scope ty ∧ Layout.Named env.arch env.host ⟨offset, ty⟩
  | .store _ addr value | .storeConditional _ _ addr value =>
      addr.HasTy env scope env.gprTy ∧ ∃ ty, value.HasTy env scope ty
  | .exit guard _ target ipOffset =>
      guard.HasTy env scope .i1 ∧
        Layout.locate env.arch (.special .cia) = .ok ⟨ipOffset, target.ty⟩
  | .loadLinked _ _ addr => addr.HasTy env scope env.gprTy
  | .call c =>
      (∀ e ∈ c.guard :: c.args, ∃ ty, e.HasTy env scope ty) ∧ c.state = [] ∧ c.memory = none
  | .hint base _ next => base.HasTy env scope env.gprTy ∧ next.HasTy env scope env.gprTy

variable {env : Env} {scope : Nat → Option Ty} {stmt : Stmt}

theorem Whole.operand (h : stmt.Whole env scope) :
    ∀ e ∈ stmt.operands, ∃ ty, e.HasTy env scope ty := by
  cases stmt with
  | mark | fence => simp [operands]
  | bind t value => simpa [operands, Whole] using h
  | put offset value =>
      obtain ⟨ty, hty, -⟩ := h
      simpa [operands] using ⟨ty, hty⟩
  | store order addr value | storeConditional order t addr value =>
      obtain ⟨haddr, hvalue⟩ := h
      simpa [operands] using ⟨⟨_, haddr⟩, hvalue⟩
  | exit guard kind target ipOffset => simpa [operands] using ⟨_, h.1⟩
  | loadLinked order t addr => simpa [operands] using ⟨_, h⟩
  | call c =>
      obtain ⟨hargs, -, hmemory⟩ := h
      simpa [operands, hmemory] using hargs
  | hint base len next => simpa [operands] using ⟨⟨_, h.1⟩, ⟨_, h.2⟩⟩

theorem Whole.expr (h : stmt.Whole env scope) {e : Expr} (he : e ∈ stmt.exprs) :
    ∃ ty, e.HasTy env scope ty := by
  obtain ⟨d, hd, he⟩ := List.mem_flatMap.mp he
  obtain ⟨ty, hty⟩ := h.operand d hd
  exact hty.parts e he

theorem Whole.address (h : stmt.Whole env scope) :
    ∀ addr ∈ stmt.addresses, addr.HasTy env scope env.gprTy := by
  cases stmt with
  | mark | bind | put | exit | fence => simp [addresses]
  | store order addr value | storeConditional order t addr value => simpa [addresses] using h.1
  | loadLinked order t addr => simpa [addresses, Whole] using h
  | call c => simp [addresses, h.2.2]
  | hint base len next => simpa [addresses, Whole] using h

end Stmt

/-- The place of the instruction address. -/
theorem Env.locate_cia (env : Env) : Layout.locate env.arch (.special .cia) =
    .ok ⟨Layout.specialOffset env.arch .cia, env.gprTy⟩ := by
  rw [Env.gprTy, ← Arch.wordTy_eq]
  rfl

theorem Emitted.whole {env : Env} {types : Array Ty} {ss : List Stmt} {stmt : Stmt}
    (h : Emitted env types ss stmt) {k : Nat} {scope : Nat → Option Ty}
    (hscope : ∀ (t : Nat) (ty : Ty), types[t]? = some ty → scope (k + t) = some ty) :
    (stmt.shift k).Whole env scope := by
  have hshift : ∀ {e : Expr} {τ : Ty}, e.HasTy env (scopeOf types ss) τ →
      (e.shift k).HasTy env scope τ :=
    fun he => he.shift fun t ty ht => hscope t ty (scopeOf_eq_some.mp ht).2
  cases h with
  | address e he => exact ⟨_, hshift he, .slot _ env.locate_cia⟩
  | fits h =>
      cases h with
      | mark | fence => trivial
      | bind t e τ he hty ht => exact ⟨τ, hshift he⟩
      | put p e hp he => exact ⟨p.ty, hshift he, hp.register.named⟩
      | store a e τ ha he hτ => exact ⟨hshift ha, τ, hshift he⟩
      | exit guard kind target hguard hfault =>
          refine ⟨hshift hguard, ?_⟩
          rw [env.address_ty]
          exact env.locate_cia
      | loadLinked t a τ ha hty hτ ht => exact hshift ha
      | storeConditional t a e τ ha he hτ hty ht => exact ⟨hshift ha, τ, hshift he⟩
      | timeBase t hty ht =>
          refine ⟨fun e he => ?_, rfl, rfl⟩
          obtain rfl := List.mem_singleton.mp he
          exact ⟨.i1, rfl⟩
      | hint a len next ha hnext => exact ⟨hshift ha, hshift hnext⟩

/-- Whole accesses of each statement are whole accesses of all. -/
theorem WholeAccesses.of_whole {env : Env} {scope : Nat → Option Ty}
    {types : Nat → Except Fault Ty} {stmts : List Stmt}
    (htypes : ∀ t ty, scope t = some ty → types t = .ok ty)
    (h : ∀ stmt ∈ stmts, stmt.Whole env scope) : WholeAccesses env.arch env.host types stmts := by
  have hnamed : ∀ p, Touches types stmts p → Layout.Named env.arch env.host p := by
    rintro _ (⟨hstmt, hget⟩ | ⟨hstmt, hty⟩)
    · obtain ⟨ty, -, hregister⟩ := (h _ hstmt).expr hget
      exact hregister.named
    · obtain ⟨ty, he, hp⟩ := h _ hstmt
      obtain rfl := Except.ok.inj ((he.check_eq htypes).symm.trans hty)
      exact hp
  have haddress : ∀ {e : Expr}, e.HasTy env scope env.gprTy →
      e.check types = .ok env.arch.wordTy := by
    intro e he
    rw [he.check_eq htypes, Arch.wordTy_eq]
  constructor
  · intro offset e hstmt
    obtain ⟨ty, he, -⟩ := h _ hstmt
    exact ⟨ty, he.check_eq htypes⟩
  · exact hnamed
  · intro p q hp hq
    exact (hnamed p hp).compatible (hnamed q hq)
  · intro stmt hstmt order ty addr hload
    obtain ⟨_, -, -, haddr⟩ := (h stmt hstmt).expr hload
    exact haddress haddr
  · intro stmt hstmt addr haddr
    exact haddress ((h stmt hstmt).address addr haddr)
  · intro guard kind target ipOffset hstmt
    exact (h _ hstmt).2
  · intro c hstmt
    exact (h _ hstmt).2

namespace Guest

/-- An answered word adds code that accesses the guest state by whole registers, and memory at
addresses of the word type. -/
theorem lift_accesses (g : Guest) (code : ByteArray) (offset : Nat) (cia blockStart : BitVec 64)
    (block : Block) (hinjector : Announced.scan code offset g.arch g.info.order = .hook .inject →
      g.injector = none) (l : Lifted)
    (hresult : (g.lift code offset cia blockStart block).result = .ok l) :
    ∃ stmts : List Stmt,
      (g.lift code offset cia blockStart block).block.stmts.toList = block.stmts.toList ++ stmts ∧
      WholeAccesses g.arch g.host (g.lift code offset cia blockStart block).block.tempTy stmts := by
  obtain ⟨types, ss, htrail, htypes, hstmts⟩ := lift_emitted hinjector hresult
  refine ⟨_, hstmts, ?_⟩
  generalize (g.lift code offset cia blockStart block).block = b at htypes
  have hscope : ∀ (t : Nat) (ty : Ty), types[t]? = some ty →
      b.types[block.types.size + t]? = some ty := by
    intro t ty ht
    rw [htypes, Array.getElem?_append_right (Nat.le_add_right _ t), Nat.add_sub_cancel_left, ht]
  have hwhole : ∀ stmt ∈ ss.map (Stmt.shift block.types.size),
      stmt.Whole (g.env cia blockStart) fun t => b.types[t]? := by
    intro stmt hstmt
    obtain ⟨stmt, hmem, rfl⟩ := List.mem_map.mp hstmt
    obtain ⟨i, hi⟩ := List.mem_iff_getElem?.mp hmem
    exact (htrail.fits_take hi).whole hscope
  exact .of_whole (fun _ _ => Block.tempTy_eq_ok.mpr) hwhole

/-- A store of a floating-point register that updates its base, in a big-endian record. -/
theorem lift_accesses_half :
    let code : ByteArray := ⟨#[0xDC, 0x23, 0x00, 0x08]⟩
    let g : Guest :=
      { arch := .ppc32, host := .big, info := { caps := ⟨Capability.ppc32F.mask⟩ } }
    let b := (g.lift code 0 0x1000 0x1000 (.empty 1152)).block
    (g.lift code 0 0x1000 0x1000 (.empty 1152)).result = .ok ⟨4, .continue, none⟩ ∧
      ∃ stmts : List Stmt, b.stmts.toList = (Block.empty 1152).stmts.toList ++ stmts ∧
        WholeAccesses .ppc32 .big b.tempTy stmts := by
  intro code g b
  have hresult : (g.lift code 0 0x1000 0x1000 (.empty 1152)).result =
      .ok ⟨4, .continue, none⟩ := by decide +kernel
  exact ⟨hresult, lift_accesses g code 0 0x1000 0x1000 (.empty 1152) (fun _ => rfl) _ hresult⟩

end Guest

end PowerLift
