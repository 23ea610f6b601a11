import PowerLift.Proofs.Emission

/-!
# Typing rules for paired expressions

One rule for each way in which translators build expressions. A derivation follows the expression;
what it takes from earlier in the run is brought up to the current stage.
-/

namespace PowerLift

open Stage (Before)

variable {P : Placement} {s s' : Stage}

/-- Expressions keep their type as the stage grows. -/
theorem Paired.up [h : Before s s'] {e e' : Expr} {τ : Ty} (he : Paired P s e e' τ) :
    Paired P s' e e' τ :=
  ⟨he.shift_eq, he.hasTy.mono h.grows.scope⟩

theorem Bounded.up [h : Before s s'] {e : Expr} {mask : Nat} (he : Bounded P s e mask) :
    Bounded P s' e mask :=
  he.mono h.grows.code

theorem PairedList.up [h : Before s s'] {es es' : List Expr} {types : List Ty}
    (hes : PairedList P s es es' types) : PairedList P s' es es' types :=
  ⟨hes.shift_eq, hes.haveTys.mono h.grows.scope⟩

theorem PairedOption.up [Before s s'] {o o' : Option Expr} {τ : Ty} (h : PairedOption P s τ o o') :
    PairedOption P s' τ o o' := by
  cases h with
  | none => exact .none
  | some h => exact .some h.up

namespace PairedList

theorem nil : PairedList P s [] [] [] := ⟨rfl, trivial⟩

theorem cons {e e' : Expr} {τ : Ty} {es es' : List Expr} {types : List Ty}
    (he : Paired P s e e' τ) (hes : PairedList P s es es' types) :
    PairedList P s (e :: es) (e' :: es') (τ :: types) :=
  ⟨by rw [he.shift_eq, hes.shift_eq, Expr.shiftAll], he.hasTy, hes.haveTys⟩

theorem append {es es' fs fs' : List Expr} {types types' : List Ty}
    (hes : PairedList P s es es' types) (hfs : PairedList P s fs fs' types') :
    PairedList P s (es ++ fs) (es' ++ fs') (types ++ types') := by
  obtain ⟨rfl, hes⟩ := hes
  induction es generalizing types with
  | nil =>
      cases types with
      | nil => exact hfs
      | cons => exact False.elim hes
  | cons e es ih =>
      cases types with
      | nil => exact False.elim hes
      | cons τ types => exact cons ⟨rfl, hes.1⟩ (ih hes.2)

/-- A list of expressions of known length, member by member. -/
theorem exists_cons {es es' : List Expr} {τ : Ty} {types : List Ty}
    (h : PairedList P s es es' (τ :: types)) :
    ∃ e e' fs fs', es = e :: fs ∧ es' = e' :: fs' ∧ Paired P s e e' τ ∧
      PairedList P s fs fs' types := by
  obtain ⟨rfl, h⟩ := h
  cases es with
  | nil => exact False.elim h
  | cons e fs => exact ⟨e, _, fs, _, rfl, rfl, ⟨rfl, h.1⟩, rfl, h.2⟩

theorem eq_nil {es es' : List Expr} (h : PairedList P s es es' []) : es = [] ∧ es' = [] := by
  obtain ⟨rfl, h⟩ := h
  cases es with
  | nil => exact ⟨rfl, rfl⟩
  | cons e fs => exact False.elim h

end PairedList

namespace Paired

variable {a a' b b' c c' d d' e e' : Expr} {τ τ₁ τ₂ τ₃ τ₄ : Ty} {op : Op}

theorem cast (hτ : τ = τ₁) (he : Paired P s e e' τ) : Paired P s e e' τ₁ := hτ ▸ he

theorem apply {es es' : List Expr} {types : List Ty} (hop : op.signature = ⟨τ, types⟩)
    (hes : PairedList P s es es' types) : Paired P s (.apply op es) (.apply op es') τ := by
  refine ⟨by rw [hes.shift_eq, Expr.shift], ?_⟩
  rw [Expr.HasTy, hop]
  exact ⟨rfl, hes.haveTys⟩

theorem un (hop : op.signature = .unary τ τ₁) (ha : Paired P s a a' τ₁) :
    Paired P s (.un op a) (.un op a') τ :=
  apply hop (.cons ha .nil)

theorem bin (hop : op.signature = .binary τ τ₁ τ₂) (ha : Paired P s a a' τ₁)
    (hb : Paired P s b b' τ₂) : Paired P s (.bin op a b) (.bin op a' b') τ :=
  apply hop (.cons ha (.cons hb .nil))

theorem tri (hop : op.signature = ⟨τ, [τ₁, τ₂, τ₃]⟩) (ha : Paired P s a a' τ₁)
    (hb : Paired P s b b' τ₂) (hc : Paired P s c c' τ₃) :
    Paired P s (.tri op a b c) (.tri op a' b' c') τ :=
  apply hop (.cons ha (.cons hb (.cons hc .nil)))

theorem quad (hop : op.signature = ⟨τ, [τ₁, τ₂, τ₃, τ₄]⟩) (ha : Paired P s a a' τ₁)
    (hb : Paired P s b b' τ₂) (hc : Paired P s c c' τ₃) (hd : Paired P s d d' τ₄) :
    Paired P s (.quad op a b c d) (.quad op a' b' c' d') τ :=
  apply hop (.cons ha (.cons hb (.cons hc (.cons hd .nil))))

theorem ite (hc : Paired P s c c' .i1) (ha : Paired P s a a' τ) (hb : Paired P s b b' τ) :
    Paired P s (.ite c a b) (.ite c' a' b') τ :=
  ⟨by rw [hc.shift_eq, ha.shift_eq, hb.shift_eq, Expr.shift], hc.hasTy, ha.hasTy, hb.hasTy⟩

theorem load (ha : Paired P s a a' P.gprTy) :
    Paired P s (.load P.env.host τ a) (.load P.env.host τ a') τ :=
  ⟨by rw [ha.shift_eq, Expr.shift], rfl, rfl, ha.hasTy⟩

theorem call {helper : Helper} {es es' : List Expr} {types : List Ty}
    (hes : PairedList P s es es' types) :
    Paired P s (.call helper τ es) (.call helper τ es') τ :=
  ⟨by rw [hes.shift_eq, Expr.shift], rfl, types, hes.haveTys⟩

theorem foldl {α : Type} {l : List α} {f f' : Expr → α → Expr} (he : Paired P s e e' τ)
    (h : ∀ x ∈ l, ∀ e e', Paired P s e e' τ → Paired P s (f e x) (f' e' x) τ) :
    Paired P s (l.foldl f e) (l.foldl f' e') τ := by
  induction l generalizing e e' with
  | nil => exact he
  | cons x l ih =>
      exact ih (h x List.mem_cons_self e e' he) fun y hy => h y (List.mem_cons_of_mem x hy)

/-! ## Literals -/

theorem u1 {v : Bool} : Paired P s (.u1 v) (.u1 v) .i1 := ⟨rfl, rfl⟩
theorem u8 {v : BitVec 8} : Paired P s (.u8 v) (.u8 v) .i8 := ⟨rfl, rfl⟩
theorem u16 {v : BitVec 16} : Paired P s (.u16 v) (.u16 v) .i16 := ⟨rfl, rfl⟩
theorem u32 {v : BitVec 32} : Paired P s (.u32 v) (.u32 v) .i32 := ⟨rfl, rfl⟩
theorem u64 {v : BitVec 64} : Paired P s (.u64 v) (.u64 v) .i64 := ⟨rfl, rfl⟩
theorem f64 {v : BitVec 64} : Paired P s (.f64 v) (.f64 v) .f64 := ⟨rfl, rfl⟩

theorem v128 {hi lo : BitVec 64} : Paired P s (.v128 hi lo) (.v128 hi lo) .v128 := bin rfl u64 u64

theorem ofWords (ha : Paired P s a a' .i32) (hb : Paired P s b b' .i32) (hc : Paired P s c c' .i32)
    (hd : Paired P s d d' .i32) : Paired P s (.ofWords a b c d) (.ofWords a' b' c' d') .v128 :=
  bin rfl (bin rfl ha hb) (bin rfl hc hd)

/-! ## Values of general registers -/

/-- On a 64-bit processor a register value has 64 bits. -/
theorem long (h64 : P.env.arch.is64 = true) (he : Paired P s e e' P.gprTy) :
    Paired P s e e' .i64 :=
  he.cast (Placement.gprTy_eq h64)

/-- On a 64-bit processor 64 bits are a register value. -/
theorem gpr (h64 : P.env.arch.is64 = true) (he : Paired P s e e' .i64) : Paired P s e e' P.gprTy :=
  he.cast (Placement.gprTy_eq h64).symm

theorem imm {v : BitVec 64} : Paired P s (P.env.imm v) (P.env.imm v) P.gprTy :=
  ⟨rfl, P.env.address_ty v⟩

theorem low32 (he : Paired P s e e' P.gprTy) :
    Paired P s (P.env.low32 e) (P.env.low32 e') .i32 := by
  unfold Env.low32
  cases h64 : P.env.arch.is64 with
  | false => exact he.cast (Placement.gprTy_eq32 h64)
  | true => exact un rfl (he.long h64)

theorem to64 {signed : Bool} (he : Paired P s e e' P.gprTy) :
    Paired P s (P.env.to64 e signed) (P.env.to64 e' signed) .i64 := by
  unfold Env.to64
  cases h64 : P.env.arch.is64 with
  | false =>
      cases signed
      · exact un rfl (he.cast (Placement.gprTy_eq32 h64))
      · exact un rfl (he.cast (Placement.gprTy_eq32 h64))
  | true => exact he.long h64

end Paired

end PowerLift
