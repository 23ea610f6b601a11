import Mathlib.Data.List.Forall2
import PowerLift.Proofs.Execution

/-!
# The operands of an expression

An expression is a tree of operands. The temporaries that it reads are those among its leaves, from
left to right, and nothing else but memory and guest state decides its value.
-/

namespace PowerLift

namespace Expr

/-- The expressions of which an expression is made, from left to right. -/
def operands : Expr → List Expr
  | .get _ _ | .tmp _ | .const _ => []
  | .apply _ args | .call _ _ args => args
  | .load _ _ addr => [addr]
  | .ite cond yes no => [cond, yes, no]

theorem sizeOf_lt_of_mem_operands {a e : Expr} (h : a ∈ e.operands) : sizeOf a < sizeOf e := by
  cases e with
  | get | tmp | const => cases h
  | apply op args | call helper ret args =>
      have hlt : sizeOf a < sizeOf args := List.sizeOf_lt_of_mem h
      simp only [apply.sizeOf_spec, call.sizeOf_spec]
      omega
  | load order ty addr =>
      obtain rfl := List.mem_singleton.mp h
      simp only [load.sizeOf_spec]
      omega
  | ite cond yes no =>
      simp only [operands, List.mem_cons, List.not_mem_nil, or_false] at h
      simp only [ite.sizeOf_spec]
      obtain rfl | rfl | rfl := h <;> omega

/-- What holds of an expression wherever it holds of its operands holds of every expression. -/
theorem operands_induction {P : Expr → Prop} (h : ∀ e : Expr, (∀ a ∈ e.operands, P a) → P e)
    (e : Expr) : P e :=
  h e fun a ha =>
    have := sizeOf_lt_of_mem_operands ha
    operands_induction h a
termination_by sizeOf e

/-- The part of an expression at a place, the numbers of operands from the outside in. -/
def at? : Expr → List Nat → Option Expr
  | e, [] => some e
  | e, i :: place => e.operands[i]?.bind fun a => a.at? place

theorem at?_cons_eq_some {e e' : Expr} {i : Nat} {place : List Nat} :
    e.at? (i :: place) = some e' ↔ ∃ a, e.operands[i]? = some a ∧ a.at? place = some e' :=
  Option.bind_eq_some_iff

/-! ## Temporaries -/

theorem tempsOf_eq (es : List Expr) : tempsOf es = es.flatMap temps := by
  induction es with
  | nil => rfl
  | cons e es ih => rw [tempsOf, ih, List.flatMap_cons]

/-- An expression other than a temporary reads what its operands read. -/
theorem temps_eq_flatMap {e : Expr} (h : ∀ t, e ≠ .tmp t) : e.temps = e.operands.flatMap temps := by
  cases e with
  | get | const => rfl
  | tmp t => exact absurd rfl (h t)
  | apply op args | call helper ret args => exact tempsOf_eq args
  | load order ty addr => simp [temps, operands]
  | ite cond yes no => simp [temps, operands]

/-- Places in order, all those at which something is read, with what is read there. -/
structure Lists (reads : List Nat → Nat → Prop) (places : List (List Nat)) (temps : List Nat) :
    Prop where
  sorted : places.Pairwise (· < ·)
  complete : ∀ place t, reads place t → place ∈ places
  each : List.Forall₂ reads places temps

theorem Lists.mem_iff {reads : List Nat → Nat → Prop} {places : List (List Nat)} {temps : List Nat}
    (h : Lists reads places temps) (place : List Nat) :
    place ∈ places ↔ ∃ t, reads place t := by
  refine ⟨fun hmem => ?_, fun ⟨t, ht⟩ => h.complete place t ht⟩
  obtain ⟨i, hi, rfl⟩ := List.mem_iff_getElem.mp hmem
  exact ⟨_, h.each.get hi (h.each.length_eq ▸ hi)⟩

/-- A temporary stands in an expression at a place. -/
def Reads (e : Expr) (place : List Nat) (t : Nat) : Prop := e.at? place = some (.tmp t)

/-- A temporary stands in one of several expressions, which are numbered from `k` on. -/
def ReadsFrom (k : Nat) (es : List Expr) (place : List Nat) (t : Nat) : Prop :=
  ∃ i rest a, place = (k + i) :: rest ∧ es[i]? = some a ∧ a.Reads rest t

theorem readsFrom_nil {k : Nat} {place : List Nat} {t : Nat} : ¬ ReadsFrom k [] place t :=
  fun ⟨_, _, _, _, ha, _⟩ => nomatch ha

theorem readsFrom_cons {k : Nat} {e : Expr} {es : List Expr} {place : List Nat} {t : Nat} :
    ReadsFrom k (e :: es) place t ↔
      (∃ rest, place = k :: rest ∧ e.Reads rest t) ∨ ReadsFrom (k + 1) es place t := by
  constructor
  · rintro ⟨i, rest, a, rfl, ha, hread⟩
    cases i with
    | zero =>
        obtain rfl := Option.some.inj ha
        exact .inl ⟨rest, rfl, hread⟩
    | succ i => exact .inr ⟨i, rest, a, by rw [Nat.add_right_comm, Nat.add_assoc], ha, hread⟩
  · rintro (⟨rest, rfl, hread⟩ | ⟨i, rest, a, rfl, ha, hread⟩)
    · exact ⟨0, rest, e, rfl, rfl, hread⟩
    · exact ⟨i + 1, rest, a, by rw [Nat.add_right_comm, Nat.add_assoc], ha, hread⟩

/-- The temporaries of several expressions stand one behind the other. -/
theorem exists_lists_from {es : List Expr}
    (h : ∀ e ∈ es, ∃ places, Lists e.Reads places e.temps) (k : Nat) :
    ∃ places, Lists (ReadsFrom k es) places (es.flatMap temps) := by
  induction es generalizing k with
  | nil => exact ⟨[], .nil, fun _ _ hread => absurd hread readsFrom_nil, .nil⟩
  | cons e es ih =>
      obtain ⟨first, hfirst⟩ := h e List.mem_cons_self
      obtain ⟨others, hothers⟩ := ih (fun a ha => h a (List.mem_cons_of_mem e ha)) (k + 1)
      refine ⟨first.map (k :: ·) ++ others, ?_, fun place t hread => ?_, ?_⟩
      · refine List.pairwise_append.mpr ⟨?_, hothers.sorted, ?_⟩
        · refine List.pairwise_map.mpr (hfirst.sorted.imp fun hlt => ?_)
          exact List.cons_lt_cons_iff.mpr (.inr ⟨rfl, hlt⟩)
        · -- Behind the first expression, all numbers are greater.
          rintro _ hplace place hother
          obtain ⟨rest, -, rfl⟩ := List.mem_map.mp hplace
          obtain ⟨t, i, rest', a, rfl, -⟩ := (hothers.mem_iff place).mp hother
          exact List.cons_lt_cons_iff.mpr (.inl (by omega))
      · obtain ⟨rest, rfl, hhere⟩ | hlater := readsFrom_cons.mp hread
        · exact List.mem_append_left _ (List.mem_map_of_mem (hfirst.complete rest t hhere))
        · exact List.mem_append_right _ (hothers.complete place t hlater)
      · rw [List.flatMap_cons]
        refine List.rel_append (List.forall₂_map_left_iff.mpr (hfirst.each.imp ?_))
          (hothers.each.imp ?_)
        · exact fun rest t hread => readsFrom_cons.mpr (.inl ⟨rest, rfl, hread⟩)
        · exact fun place t hread => readsFrom_cons.mpr (.inr hread)

/-- The temporaries of an expression, from left to right, are those at its places in order. -/
theorem exists_lists (e : Expr) : ∃ places, Lists e.Reads places e.temps := by
  induction e using operands_induction with
  | h e ih =>
  by_cases htmp : ∃ t, e = .tmp t
  · obtain ⟨t, rfl⟩ := htmp
    refine ⟨[[]], List.pairwise_singleton _ _, fun place t' hread => ?_, .cons rfl .nil⟩
    cases place with
    | nil => exact List.mem_cons_self
    | cons i place => cases hread
  · have hne : ∀ t, e ≠ .tmp t := fun t ht => htmp ⟨t, ht⟩
    have hreads : e.Reads = ReadsFrom 0 e.operands := by
      funext place t
      refine propext ⟨fun hread => ?_, ?_⟩
      · cases place with
        | nil => exact absurd (Option.some.inj hread) (hne t)
        | cons i place =>
            obtain ⟨a, ha, hread⟩ := at?_cons_eq_some.mp hread
            exact ⟨i, place, a, by rw [Nat.zero_add], ha, hread⟩
      · rintro ⟨i, rest, a, rfl, ha, hread⟩
        rw [Nat.zero_add]
        exact at?_cons_eq_some.mpr ⟨a, ha, hread⟩
    rw [hreads, temps_eq_flatMap hne]
    exact exists_lists_from ih 0

/-! ## Values -/

section

variable {M : Type} (I : Interp M) {m m' : Machine M}

theorem evalAll_eq (es : List Expr) : evalAll I m es = es.map (eval I m) := by
  induction es with
  | nil => rfl
  | cons e es ih => rw [evalAll, ih, List.map_cons]

theorem mem_temps_of_mem_operands {a e : Expr} (ha : a ∈ e.operands) {t : Nat} (ht : t ∈ a.temps) :
    t ∈ e.temps := by
  have hne : ∀ t, e ≠ .tmp t := by
    rintro t rfl
    cases ha
  rw [temps_eq_flatMap hne]
  exact List.mem_flatMap.mpr ⟨a, ha, ht⟩

/-- The value of an expression depends on the temporaries that it reads, memory and guest state. -/
theorem eval_congr (hmemory : m'.memory = m.memory) (hstate : m'.state = m.state) (e : Expr)
    (htemps : ∀ t ∈ e.temps, m'.temps t = m.temps t) : e.eval I m' = e.eval I m := by
  induction e using operands_induction with
  | h e ih =>
  have hoperand : ∀ a ∈ e.operands, a.eval I m' = a.eval I m :=
    fun a ha => ih a ha fun t ht => htemps t (mem_temps_of_mem_operands ha ht)
  have hoperands : evalAll I m' e.operands = evalAll I m e.operands := by
    rw [evalAll_eq, evalAll_eq]
    exact List.map_congr_left hoperand
  cases e with
  | get offset ty => rw [eval, eval, hstate]
  | tmp t => exact htemps t List.mem_cons_self
  | const c => rfl
  | apply op args | call helper ret args =>
      rw [operands] at hoperands
      rw [eval, eval, hoperands]
  | load order ty addr => rw [eval, eval, hmemory, hoperand addr List.mem_cons_self]
  | ite cond yes no =>
      simp only [operands, List.forall_mem_cons] at hoperand
      obtain ⟨hcond, hyes, hno, -⟩ := hoperand
      rw [eval, eval, hcond, hyes, hno]

end

end Expr

end PowerLift
