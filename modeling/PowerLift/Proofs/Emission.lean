import PowerLift.Proofs.Staged

/-!
# Emission

Every statement about translators compares two runs of one translator. The first emits into an empty
block and may follow no branch; the second emits behind a block with temporaries of its own. The
runs stay together: each refuses if the other does, and otherwise both have staged the same sound
code, up to the numbers of temporaries. Reading two equal runs side by side gives the safety of one.
-/

namespace PowerLift

namespace Placement

variable (P : Placement)

/-- Both liftings have staged `s` and go on. -/
structure Together (s : Stage) (p p' : Progress) : Prop where
  outer : s.outer = #[]
  left : p.stage = s
  left_next : p.next = .continue
  right : p'.stage = s.on P.outer
  right_next : p'.next = .continue

end Placement

/-- How two liftings may end: both with results, both refusing the word for one reason, or the first
for want of an extension that the second has. -/
inductive Outcome (P : Placement) {α : Type} (K : α → α → Progress → Progress → Prop) :
    Except Stop α × Progress → Except Stop α × Progress → Prop where
  | both {a a' : α} {q q' : Progress} (h : K a a' q q') : Outcome P K (.ok a, q) (.ok a', q')
  | refused (r : Refusal) (q q' : Progress) :
      Outcome P K (.error (.refuse r), q) (.error (.refuse r), q')
  | gated (raw : BitVec 32) (ext : Extension) (q : Progress)
      (right : Except Stop α × Progress) (h : P.features ≠ P.env.features) :
      Outcome P K (.error (.refuse ⟨raw, .missing ext⟩), q) right

theorem Outcome.mono {P : Placement} {α : Type} {K K' : α → α → Progress → Progress → Prop}
    {left right : Except Stop α × Progress} (h : Outcome P K left right)
    (hK : ∀ a a' q q', K a a' q q' → K' a a' q q') : Outcome P K' left right := by
  cases h with
  | both h => exact .both (hK _ _ _ _ h)
  | refused r q q' => exact .refused r q q'
  | gated raw ext q right h => exact .gated raw ext q right h

/-- Two liftings that start together on a sound stage end as `K` says. -/
def Runs (P : Placement) (s : Stage) (pending : List Nat) {α : Type} (m m' : Lift α)
    (K : α → α → Progress → Progress → Prop) : Prop :=
  s.Sound P pending → ∀ p p', P.Together s p p' →
    Outcome P K (Lift.exec P.alone p m) (Lift.exec P.env p' m')

/-- The liftings have gone on to a sound stage together, with results as `Q` says. -/
def Kept (P : Placement) (s : Stage) (pending : List Nat) {α : Type}
    (Q : α → α → Stage → Prop) (a a' : α) (q q' : Progress) : Prop :=
  ∃ s', P.Together s' q q' ∧ s'.Sound P pending ∧ s.Grows s' ∧ Q a a' s'

/-- The liftings have staged nothing, with results as `Q` says. -/
def Still (P : Placement) (s : Stage) {α : Type} (Q : α → α → Prop) (a a' : α)
    (q q' : Progress) : Prop :=
  P.Together s q q' ∧ Q a a'

/-- Expressions of a type that are the same up to the numbers of temporaries. -/
structure Paired (P : Placement) (s : Stage) (e e' : Expr) (τ : Ty) : Prop where
  shift_eq : e' = e.shift P.outer.size
  hasTy : e.HasTy P.env s.scope τ

/-- An expression that keeps to the bits of a mask. -/
abbrev Bounded (P : Placement) (s : Stage) (e : Expr) (mask : Nat) : Prop :=
  e.Within P.env.arch s.stmts.toList mask

/-- Lists of expressions of the types given. -/
structure PairedList (P : Placement) (s : Stage) (es es' : List Expr) (types : List Ty) : Prop where
  shift_eq : es' = Expr.shiftAll P.outer.size es
  haveTys : Expr.HaveTys P.env s.scope es types

/-- Paired expressions, where there are any. -/
inductive PairedOption (P : Placement) (s : Stage) (τ : Ty) : Option Expr → Option Expr → Prop where
  | none : PairedOption P s τ none none
  | some {e e' : Expr} (h : Paired P s e e' τ) : PairedOption P s τ (some e) (some e')

section Judgements

variable (P : Placement) (s : Stage) (pending : List Nat)

/-- A statement-emitting program that leaves the stage sound. -/
abbrev Emits (m m' : Lift Unit) : Prop := Runs P s pending m m' (Kept P s pending fun _ _ _ => True)

/-- A program that may stage code and returns an expression of type `τ`. -/
abbrev Computes (m m' : Lift Expr) (τ : Ty) : Prop :=
  Runs P s pending m m' (Kept P s pending fun e e' s' => Paired P s' e e' τ)

/-- A program that stages nothing and returns an expression of type `τ`. -/
abbrev Reads (m m' : Lift Expr) (τ : Ty) : Prop :=
  Runs P s pending m m' (Still P s fun e e' => Paired P s e e' τ)

/-- A program that stages nothing and returns `a` or `a'`. -/
abbrev Gives {α : Type} (m m' : Lift α) (a a' : α) : Prop :=
  Runs P s pending m m' (Still P s fun b b' => b = a ∧ b' = a')

/-- A program that stages nothing and goes on only where `φ` holds. -/
abbrev Guards (m m' : Lift Unit) (φ : Prop) : Prop :=
  Runs P s pending m m' (Still P s fun _ _ => φ)

end Judgements

namespace Lift

theorem exec_pure {α : Type} (env : Env) (p : Progress) (a : α) :
    exec env p (pure a) = (.ok a, p) := rfl

theorem exec_bind {α β : Type} (env : Env) (p : Progress) (x : Lift α) (f : α → Lift β) :
    exec env p (x >>= f) = match exec env p x with
      | (.ok a, q) => exec env q (f a)
      | (.error e, q) => (.error e, q) := by
  change (match x env p with | (r, q) => ExceptT.bindCont (fun a => f a env) r q) = _
  unfold exec ExceptT.run
  rcases x env p with ⟨_ | _, q⟩ <;> rfl

end Lift

namespace Runs

open Stage (Next Before)

variable {P : Placement} {s : Stage} {pending pending₁ : List Nat} {α β : Type}
  {x x' : Lift α} {f f' : α → Lift β}

theorem mono {K K' : α → α → Progress → Progress → Prop} (h : Runs P s pending x x' K)
    (hK : ∀ a a' q q', K a a' q q' → K' a a' q q') : Runs P s pending x x' K' :=
  fun hs p p' hp => (h hs p p' hp).mono hK

/-- The rule for sequences behind every other. -/
theorem andThen {K₁ : α → α → Progress → Progress → Prop} {K : β → β → Progress → Progress → Prop}
    (hx : Runs P s pending x x' K₁)
    (hf : s.Sound P pending → ∀ a a' q q', K₁ a a' q q' →
      Outcome P K (Lift.exec P.alone q (f a)) (Lift.exec P.env q' (f' a'))) :
    Runs P s pending (x >>= f) (x' >>= f') K := by
  intro hs p p' hp
  rw [Lift.exec_bind, Lift.exec_bind]
  have hx := hx hs p p' hp
  generalize Lift.exec P.alone p x = left at hx
  generalize Lift.exec P.env p' x' = right at hx
  cases hx with
  | both h => exact hf hs _ _ _ _ h
  | refused r q q' => exact .refused r q q'
  | gated raw ext q right h => exact .gated raw ext q _ h

/-- A program behind one that stages code. -/
theorem bind {Q : α → α → Stage → Prop} {K : β → β → Progress → Progress → Prop}
    (hx : Runs P s pending x x' (Kept P s pending₁ Q))
    (hf : ∀ a a' (s₁ : Stage) [Next s s₁], Q a a' s₁ → Runs P s₁ pending₁ (f a) (f' a') K) :
    Runs P s pending (x >>= f) (x' >>= f') K := by
  refine hx.andThen fun _ a a' q q' h => ?_
  obtain ⟨s₁, htogether, hsound, hgrows, hQ⟩ := h
  -- What was paired on `s` is brought up to `s₁` by instance search.
  have : Next s s₁ := ⟨hgrows⟩
  exact hf a a' s₁ hQ hsound q q' htogether

/-- A program behind one that is run for its statements. -/
theorem seq {x x' : Lift Unit} {f f' : Unit → Lift β} {K : β → β → Progress → Progress → Prop}
    (hx : Emits P s pending x x')
    (hf : ∀ (s₁ : Stage) [Next s s₁], Runs P s₁ pending (f ()) (f' ()) K) :
    Runs P s pending (x >>= f) (x' >>= f') K :=
  hx.bind fun _ _ s₁ _ _ => hf s₁

/-- A program behind one that stages nothing. -/
theorem read {Q : α → α → Prop} {K : β → β → Progress → Progress → Prop}
    (hx : Runs P s pending x x' (Still P s Q))
    (hf : ∀ a a', Q a a' → Runs P s pending (f a) (f' a') K) :
    Runs P s pending (x >>= f) (x' >>= f') K :=
  hx.andThen fun hs a a' q q' h => hf a a' h.2 hs q q' h.1

/-- A program behind one with a known result. -/
theorem give {a a' : α} {K : β → β → Progress → Progress → Prop}
    (hx : Gives P s pending x x' a a') (hf : Runs P s pending (f a) (f' a') K) :
    Runs P s pending (x >>= f) (x' >>= f') K := by
  refine hx.read fun b b' hb => ?_
  obtain ⟨rfl, rfl⟩ := hb
  exact hf

/-- A program behind a returned value. -/
theorem ret {a a' : α} {K : β → β → Progress → Progress → Prop}
    (hf : Runs P s pending (f a) (f' a') K) :
    Runs P s pending (Pure.pure a >>= f) (Pure.pure a' >>= f') K := by
  rw [pure_bind, pure_bind]
  exact hf

/-- A program whose result is wrapped. -/
theorem map {g g' : α → β} {Q : α → α → Stage → Prop} {Q' : β → β → Stage → Prop}
    (hx : Runs P s pending x x' (Kept P s pending₁ Q))
    (hQ : ∀ a a' s₁, Q a a' s₁ → Q' (g a) (g' a') s₁) :
    Runs P s pending (g <$> x) (g' <$> x') (Kept P s pending₁ Q') := by
  rw [map_eq_pure_bind, map_eq_pure_bind]
  refine hx.andThen fun _ a a' q q' h => ?_
  obtain ⟨s₁, htogether, hsound, hgrows, h⟩ := h
  exact .both ⟨s₁, htogether, hsound, hgrows, hQ a a' s₁ h⟩

/-- A program behind a condition. -/
theorem guard {φ : Prop} {x x' : Lift Unit} {f f' : Unit → Lift β}
    {K : β → β → Progress → Progress → Prop} (hx : Guards P s pending x x' φ)
    (hf : φ → Runs P s pending (f ()) (f' ()) K) : Runs P s pending (x >>= f) (x' >>= f') K :=
  hx.read fun _ _ h => hf h

theorem ite {c : Prop} [Decidable c] {y y' : Lift α} {K : α → α → Progress → Progress → Prop}
    (hx : c → Runs P s pending x x' K) (hy : ¬c → Runs P s pending y y' K) :
    Runs P s pending (if c then x else y) (if c then x' else y') K := by
  by_cases hc : c
  · simpa only [if_pos hc] using hx hc
  · simpa only [if_neg hc] using hy hc

/-- A program behind one that is run for its statements where a condition holds. -/
theorem when {c : Prop} [Decidable c] {x x' : Lift Unit} {f f' : Unit → Lift β}
    {K : β → β → Progress → Progress → Prop} (hx : c → Emits P s pending x x')
    (hf : ∀ (s₁ : Stage) [Next s s₁], Runs P s₁ pending (f ()) (f' ()) K) :
    Runs P s pending (if c then x >>= f else f ()) (if c then x' >>= f' else f' ()) K := by
  -- Where the condition fails nothing is staged, and `s` itself comes next.
  have : Next s s := ⟨.refl s⟩
  exact .ite (fun hc => .seq (hx hc) fun s₁ _ => hf s₁) fun _ => hf s

/-- A program behind a condition that is asked for only where another holds. -/
theorem guardWhen {c φ : Prop} [Decidable c] {x x' : Lift Unit} {f f' : Unit → Lift β}
    {K : β → β → Progress → Progress → Prop} (hx : c → Guards P s pending x x' φ)
    (hf : (c → φ) → Runs P s pending (f ()) (f' ()) K) :
    Runs P s pending (if c then x >>= f else f ()) (if c then x' >>= f' else f' ()) K :=
  .ite (fun hc => .guard (hx hc) fun h => hf fun _ => h) fun hc => hf fun h => absurd h hc

/-- A result that is returned as it is. -/
theorem pure {Q : α → α → Prop} {a a' : α} (h : Q a a') :
    Runs P s pending (Pure.pure a) (Pure.pure a') (Still P s Q) :=
  fun _ _ _ hp => .both ⟨hp, h⟩

/-- The result of a program that may have staged code. -/
theorem done {s₁ : Stage} [hbefore : Before s s₁] {Q : α → α → Stage → Prop} {a a' : α}
    (h : Q a a' s₁) : Runs P s₁ pending (Pure.pure a) (Pure.pure a') (Kept P s pending Q) :=
  fun hs _ _ hp => .both ⟨s₁, hp, hs, hbefore.grows, h⟩

/-- The last program of a sequence. -/
theorem last {s₁ : Stage} [hbefore : Before s s₁] {Q : α → α → Stage → Prop}
    (h : Runs P s₁ pending x x' (Kept P s₁ pending₁ Q)) :
    Runs P s₁ pending x x' (Kept P s pending₁ Q) := by
  refine h.mono fun a a' q q' hkept => ?_
  obtain ⟨s₂, htogether, hsound, hgrows, hQ⟩ := hkept
  exact ⟨s₂, htogether, hsound, hbefore.grows.trans hgrows, hQ⟩

/-- The last program of a sequence, run for its statements. -/
theorem lastEmit {s₁ : Stage} [hbefore : Before s s₁] {x x' : Lift Unit}
    {Q : Unit → Unit → Stage → Prop} (h : Emits P s₁ pending x x')
    (hQ : ∀ (s₂ : Stage) [Next s₁ s₂], Q () () s₂) :
    Runs P s₁ pending x x' (Kept P s pending Q) := by
  refine h.mono fun a a' q q' hkept => ?_
  obtain ⟨s₂, htogether, hsound, hgrows, -⟩ := hkept
  have : Next s₁ s₂ := ⟨hgrows⟩
  exact ⟨s₂, htogether, hsound, hbefore.grows.trans hgrows, hQ s₂⟩

/-- The last program of a sequence, if it stages nothing. -/
theorem lastRead {s₁ : Stage} [hbefore : Before s s₁] {Q : α → α → Prop}
    {Q' : α → α → Stage → Prop} (h : Runs P s₁ pending x x' (Still P s₁ Q))
    (hQ : ∀ a a', Q a a' → Q' a a' s₁) : Runs P s₁ pending x x' (Kept P s pending Q') := by
  -- Soundness comes from before the program, which has left the stage as it was.
  intro hs p p' hp
  refine (h.mono fun a a' q q' hstill => ?_) hs p p' hp
  exact ⟨s₁, hstill.1, hs, hbefore.grows, hQ a a' hstill.2⟩

/-- The order in which temporaries are still to be bound does not matter. -/
theorem perm {K : α → α → Progress → Progress → Prop} (hperm : pending.Perm pending₁)
    (h : Runs P s pending₁ x x' K) : Runs P s pending x x' K := by
  intro hs
  exact h { hs with
    pending_iff := fun t => (hs.pending_iff t).trans hperm.mem_iff
    pending_nodup := hperm.nodup_iff.mp hs.pending_nodup }

end Runs

/-- A program that stages nothing is one that may. -/
theorem Reads.computes {P : Placement} {s : Stage} {pending : List Nat} {m m' : Lift Expr} {τ : Ty}
    (h : Reads P s pending m m' τ) : Computes P s pending m m' τ :=
  .lastRead h fun _ _ h => h

end PowerLift
