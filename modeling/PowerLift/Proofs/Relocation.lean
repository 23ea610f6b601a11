import PowerLift.Stage

/-!
# Renumbering temporaries

The temporaries of a stage are numbered on from those of its block. Moving the stage behind another
block adds a constant to each number and changes nothing else: types, reads and checks follow.
-/

namespace PowerLift

namespace Expr

mutual

/-- An expression with every temporary moved up by `k`. -/
def shift (k : Nat) : Expr → Expr
  | .get offset ty => .get offset ty
  | .tmp t => .tmp (k + t)
  | .const c => .const c
  | .apply op args => .apply op (shiftAll k args)
  | .load order ty addr => .load order ty (shift k addr)
  | .ite cond yes no => .ite (shift k cond) (shift k yes) (shift k no)
  | .call helper ret args => .call helper ret (shiftAll k args)

/-- Several expressions with every temporary moved up by `k`. -/
def shiftAll (k : Nat) : List Expr → List Expr
  | [] => []
  | e :: es => shift k e :: shiftAll k es

end

theorem length_shiftAll (k : Nat) (es : List Expr) : (shiftAll k es).length = es.length := by
  induction es with
  | nil => rfl
  | cons e es ih => simp only [shiftAll, List.length_cons, ih]

mutual

theorem temps_shift (k : Nat) : ∀ e : Expr, (e.shift k).temps = e.temps.map (k + ·)
  | .get _ _ | .tmp _ | .const _ => rfl
  | .apply _ args | .call _ _ args => by
      simpa only [shift, temps] using tempsOf_shiftAll k args
  | .load _ _ addr => by simpa only [shift, temps] using temps_shift k addr
  | .ite cond yes no => by
      simp only [shift, temps, List.map_append, temps_shift k cond, temps_shift k yes,
        temps_shift k no]

theorem tempsOf_shiftAll (k : Nat) :
    ∀ es : List Expr, tempsOf (shiftAll k es) = (tempsOf es).map (k + ·)
  | [] => rfl
  | e :: es => by
      simp only [shiftAll, tempsOf, List.map_append, temps_shift k e, tempsOf_shiftAll k es]

end

theorem typeOf_shift (k : Nat) (env : Nat → Except Fault Ty) :
    ∀ e : Expr, (e.shift k).typeOf env = e.typeOf fun t => env (k + t)
  | .get _ _ | .tmp _ | .const _ | .apply _ _ | .load _ _ _ | .call _ _ _ => rfl
  | .ite _ yes _ => by simpa only [shift, typeOf] using typeOf_shift k env yes

mutual

theorem check_shift (k : Nat) (env : Nat → Except Fault Ty) :
    ∀ e : Expr, (e.shift k).check env = e.check fun t => env (k + t)
  | .get _ _ | .tmp _ | .const _ => rfl
  | .apply op args => by
      simp only [shift, check, length_shiftAll, checkOperands_shiftAll k env op 0]
  | .load _ _ addr => by simp only [shift, check, check_shift k env addr]
  | .ite cond yes no => by
      simp only [shift, check, check_shift k env cond, check_shift k env yes,
        check_shift k env no]
  | .call _ _ args => by simp only [shift, check, checkEach_shiftAll k env args]

theorem checkOperands_shiftAll (k : Nat) (env : Nat → Except Fault Ty) (op : Op) (i : Nat) :
    ∀ (wants : List Ty) (args : List Expr),
      checkOperands env op i wants (shiftAll k args) =
        checkOperands (fun t => env (k + t)) op i wants args
  | [], [] | [], _ :: _ | _ :: _, [] => rfl
  | want :: wants, arg :: args => by
      simp only [shiftAll, checkOperands, check_shift k env arg,
        checkOperands_shiftAll k env op (i + 1) wants args]

theorem checkEach_shiftAll (k : Nat) (env : Nat → Except Fault Ty) :
    ∀ args : List Expr,
      checkEach env (shiftAll k args) = checkEach (fun t => env (k + t)) args
  | [] => rfl
  | arg :: args => by
      simp only [shiftAll, checkEach, check_shift k env arg, checkEach_shiftAll k env args]

end

end Expr

/-- A call with every temporary moved up by `k`. -/
def EffectCall.shift (k : Nat) (c : EffectCall) : EffectCall :=
  { c with
    guard := c.guard.shift k
    args := Expr.shiftAll k c.args
    result := c.result.map (k + ·)
    memory := c.memory.map fun m => { m with addr := m.addr.shift k } }

/-- A statement with every temporary moved up by `k`. -/
def Stmt.shift (k : Nat) : Stmt → Stmt
  | .mark addr len delta => .mark addr len delta
  | .bind t value => .bind (k + t) (value.shift k)
  | .put offset value => .put offset (value.shift k)
  | .store order addr value => .store order (addr.shift k) (value.shift k)
  | .exit guard kind target ipOffset => .exit (guard.shift k) kind target ipOffset
  | .loadLinked order t addr => .loadLinked order (k + t) (addr.shift k)
  | .storeConditional order t addr value =>
      .storeConditional order (k + t) (addr.shift k) (value.shift k)
  | .fence => .fence
  | .call c => .call (c.shift k)
  | .hint base len next => .hint (base.shift k) len (next.shift k)

namespace Stage

/-- A stage moved behind a block with temporaries of its own. -/
def on (outer : Array Ty) (s : Stage) : Stage :=
  { s with outer, stmts := s.stmts.map (Stmt.shift outer.size) }

variable (outer : Array Ty) (s : Stage)

@[simp] theorem on_types : (s.on outer).types = s.types := rfl

theorem on_push (stmt : Stmt) :
    (s.on outer).push (stmt.shift outer.size) = (s.push stmt).on outer := by
  simp only [on, push, Array.map_push]

/-- The type of a moved temporary is that of the original. -/
theorem tempTy_on (hs : s.outer = #[]) (t : Nat) (ty : Ty) (ht : s.types[t]? = some ty) :
    s.tempTy t = .ok ty ∧ (s.on outer).tempTy (outer.size + t) = .ok ty := by
  simp [tempTy, base, on, hs, ht]

theorem checkRead_on (hs : s.outer = #[]) (t : Nat) (ht : s.bound[t]? = some true) :
    s.checkRead t = .ok () ∧ (s.on outer).checkRead (outer.size + t) = .ok () := by
  simp [checkRead, base, on, hs, ht]

theorem markBound_on (hs : s.outer = #[]) (t : Nat) (ht : s.bound[t]? = some false) :
    s.markBound t = .ok { s with bound := s.bound.setIfInBounds t true } ∧
      (s.on outer).markBound (outer.size + t) =
        .ok ({ s with bound := s.bound.setIfInBounds t true } |>.on outer) := by
  simp [markBound, base, on, hs, ht]

end Stage

end PowerLift
