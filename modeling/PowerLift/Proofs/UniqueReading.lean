import PowerLift.Proofs.ListingTokens

/-!
# Listings determine code

No two expressions have one listing, and no two statements. A listing determines its row of tokens,
and the row is read from left to right: its first word shows the form of an expression, and each
part ends where its row does.
-/

namespace PowerLift

open Text Token

variable {address : Helper → BitVec 64} {r r' : List Token}

/-! ## Names determine what they name -/

theorem Ty.name_injective : Function.Injective name := by
  intro ty ty' h
  revert h
  cases ty <;> cases ty' <;> decide

theorem Helper.symbol_injective : Function.Injective symbol := by
  intro x y h
  revert h
  cases x <;> cases y <;> decide

theorem JumpKind.name_injective : Function.Injective name := by
  intro x y h
  revert h
  cases x <;> cases y <;> decide

theorem Access.tag_injective : Function.Injective tag := by
  intro x y h
  revert h
  cases x <;> cases y <;> decide

theorem ByteOrder.load_injective :
    Function.Injective fun order : ByteOrder => "LD" ++ order.tag := by
  intro x y h
  revert h
  cases x <;> cases y <;> decide

theorem ByteOrder.store_injective :
    Function.Injective fun order : ByteOrder => "ST" ++ order.tag := by
  intro x y h
  revert h
  cases x <;> cases y <;> decide

/-! ## Expressions -/

theorem Const.tokens_inj {c c' : Const} (h : c.tokens ++ r = c'.tokens ++ r') :
    c = c' ∧ r = r' := by
  cases c <;> cases c' <;> simp [tokens] at h
  case u1.u1 b b' =>
    refine ⟨?_, h.2⟩
    cases b <;> cases b' <;> simp_all
  case v128.v128 v v' => exact ⟨congrArg v128 (BitVec.eq_of_toNat_eq (hexAtLeast_inj h.1)), h.2⟩
  all_goals exact ⟨congrArg _ (BitVec.eq_of_toNat_eq (hex_inj h.1)), h.2⟩

theorem Const.exists_lead (c : Const) : ∃ w ts, c.tokens = word w :: ts ∧
    Expr.Form.ofWord w.toList = .const ∧ ts.head? ≠ some (mark '-') := by
  cases c with
  | u1 b => exact ⟨_, _, rfl, by cases b <;> rfl, by simp⟩
  | u8 | u16 | u32 | u64 => exact ⟨_, _, rfl, by rw [toList_hex]; rfl, by simp⟩
  | f32 | f64 | v128 => exact ⟨_, _, rfl, by decide, by simp⟩

namespace Expr

/-- The form of an expression. -/
def form : Expr → Form
  | .get _ _ => .get
  | .tmp _ => .tmp
  | .const _ => .const
  | .apply _ _ => .apply
  | .load _ _ _ => .load
  | .ite _ _ _ => .ite
  | .call _ _ _ => .call

/-- The row of an expression starts with a word, which shows its form; no dash is next. -/
theorem exists_lead (e : Expr) (address : Helper → BitVec 64) :
    ∃ w ts, e.tokens address = word w :: ts ∧ Form.ofWord w.toList = e.form ∧
      ts.head? ≠ some (mark '-') := by
  cases e with
  | get => exact ⟨_, _, rfl, (by decide : Form.ofWord "GET".toList = .get), by simp⟩
  | tmp t => exact ⟨_, _, rfl, by rw [toList_temp]; rfl, by simp⟩
  | const c => exact c.exists_lead
  | apply op args => exact ⟨_, _, rfl, op.form_name, by simp⟩
  | load order ty addr =>
      have hword : Form.ofWord ("LD" ++ order.tag).toList = .load := by cases order <;> decide
      exact ⟨_, _, rfl, hword, by simp⟩
  | ite => exact ⟨_, _, rfl, (by decide : Form.ofWord "ITE".toList = .ite), by simp⟩
  | call helper ret args =>
      have hword : Form.ofWord helper.symbol.toList = .call := by cases helper <;> decide
      exact ⟨_, _, rfl, hword, by simp⟩

theorem form_eq {e e' : Expr} (h : e.tokens address ++ r = e'.tokens address ++ r') :
    e.form = e'.form := by
  obtain ⟨w, ts, hw, hform, -⟩ := e.exists_lead address
  obtain ⟨w', ts', hw', hform', -⟩ := e'.exists_lead address
  rw [hw, hw', List.cons_append, List.cons_append, List.cons.injEq, word.injEq] at h
  rw [← hform, ← hform', h.1]

/-- An expression does not start with a mark. -/
theorem tokens_ne_mark (e : Expr) (c : Char) : mark c :: r ≠ e.tokens address ++ r' := by
  obtain ⟨w, ts, hw, -⟩ := e.exists_lead address
  simp [hw]

mutual

/-- Where rows that start with expressions are equal, so are the expressions and what follows. -/
theorem tokens_inj : ∀ (e : Expr) {e' : Expr} {r r' : List Token},
    e.tokens address ++ r = e'.tokens address ++ r' → e = e' ∧ r = r'
  | .get offset ty, e', r, r', h => by
      have hform := form_eq h
      cases e' with
      | get offset' ty' =>
          simp only [tokens, List.cons_append, List.nil_append, List.cons.injEq, word.injEq,
            true_and] at h
          obtain ⟨hty, hoffset, hr⟩ := h
          rw [Ty.name_injective hty, decimal_inj hoffset]
          exact ⟨rfl, hr⟩
      | _ => cases hform
  | .tmp t, e', r, r', h => by
      have hform := form_eq h
      cases e' with
      | tmp t' =>
          simp only [tokens, List.cons_append, List.nil_append, List.cons.injEq, word.injEq] at h
          exact ⟨congrArg tmp (temp_inj h.1), h.2⟩
      | _ => cases hform
  | .const c, e', r, r', h => by
      have hform := form_eq h
      cases e' with
      | const c' =>
          obtain ⟨rfl, hr⟩ := Const.tokens_inj h
          exact ⟨rfl, hr⟩
      | _ => cases hform
  | .apply op args, e', r, r', h => by
      have hform := form_eq h
      cases e' with
      | apply op' args' =>
          simp only [tokens, List.cons_append, List.append_assoc, List.nil_append, List.cons.injEq,
            word.injEq, true_and] at h
          obtain ⟨hop, hargs⟩ := h
          obtain ⟨rfl, hr⟩ := (operands_inj args).1 hargs
          exact ⟨by rw [Op.name_injective hop], hr⟩
      | _ => cases hform
  | .load order ty addr, e', r, r', h => by
      have hform := form_eq h
      cases e' with
      | load order' ty' addr' =>
          simp only [tokens, List.cons_append, List.append_assoc, List.nil_append, List.cons.injEq,
            word.injEq, true_and] at h
          obtain ⟨horder, hty, haddr⟩ := h
          obtain ⟨rfl, hr⟩ := tokens_inj addr haddr
          rw [ByteOrder.load_injective horder, Ty.name_injective hty]
          exact ⟨rfl, (List.cons.inj hr).2⟩
      | _ => cases hform
  | .ite cond yes no, e', r, r', h => by
      have hform := form_eq h
      cases e' with
      | ite cond' yes' no' =>
          simp only [tokens, List.cons_append, List.append_assoc, List.nil_append, List.cons.injEq,
            true_and] at h
          obtain ⟨rfl, hrest⟩ := tokens_inj cond h
          obtain ⟨rfl, hrest'⟩ := tokens_inj yes (List.cons.inj hrest).2
          obtain ⟨rfl, hend⟩ := tokens_inj no (List.cons.inj hrest').2
          exact ⟨rfl, (List.cons.inj hend).2⟩
      | _ => cases hform
  | .call helper ret args, e', r, r', h => by
      have hform := form_eq h
      cases e' with
      | call helper' ret' args' =>
          simp only [tokens, List.cons_append, List.append_assoc, List.nil_append, List.cons.injEq,
            word.injEq, true_and] at h
          obtain ⟨hhelper, -, hargs⟩ := h
          obtain ⟨rfl, hend⟩ := (operands_inj args).1 hargs
          simp only [List.cons.injEq, word.injEq, true_and] at hend
          rw [Helper.symbol_injective hhelper, Ty.name_injective hend.1]
          exact ⟨rfl, hend.2⟩
      | _ => cases hform

theorem operands_inj : ∀ (es : List Expr) {es' : List Expr} {r r' : List Token},
    (operandTokens address [] es ++ mark ')' :: r = operandTokens address [] es' ++ mark ')' :: r' →
      es = es' ∧ r = r') ∧
    (operandTokens address [mark ','] es ++ mark ')' :: r =
      operandTokens address [mark ','] es' ++ mark ')' :: r' → es = es' ∧ r = r')
  | [], [], r, r' => by simp [operandTokens]
  | [], e' :: es', r, r' => by
      refine ⟨fun h => ?_, fun h => by simp [operandTokens] at h⟩
      rw [operandTokens, operandTokens, List.nil_append, List.nil_append, List.append_assoc] at h
      exact absurd h (tokens_ne_mark e' _)
  | e :: es, [], r, r' => by
      refine ⟨fun h => ?_, fun h => by simp [operandTokens] at h⟩
      rw [operandTokens, operandTokens, List.nil_append, List.nil_append, List.append_assoc] at h
      exact absurd h.symm (tokens_ne_mark e _)
  | e :: es, e' :: es', r, r' => by
      -- Behind the first operand, both rows go on with a comma or end.
      have hstep : e.tokens address ++ (operandTokens address [mark ','] es ++ mark ')' :: r) =
          e'.tokens address ++ (operandTokens address [mark ','] es' ++ mark ')' :: r') →
          e :: es = e' :: es' ∧ r = r' := by
        intro h
        obtain ⟨rfl, hrest⟩ := tokens_inj e h
        obtain ⟨rfl, hr⟩ := (operands_inj es).2 hrest
        exact ⟨rfl, hr⟩
      simp only [operandTokens, List.nil_append, List.cons_append, List.append_assoc,
        List.cons.injEq, true_and]
      simpa using hstep

end

theorem tokens_injective : Function.Injective (tokens address) := fun e e' h => by
  have happend : e.tokens address ++ [] = e'.tokens address ++ [] := by rw [h]
  exact (tokens_inj e happend).1

end Expr

/-! ## Statements -/

namespace EffectCall

theorem state_inj : ∀ {ss ss' : List StateEffect} {r r' : List Token},
    ss.flatMap stateTokens ++ mark ':' :: r = ss'.flatMap stateTokens ++ mark ':' :: r' →
      ss = ss' ∧ r = r'
  | [], [], r, r', h => ⟨rfl, (List.cons.inj h).2⟩
  | [], s' :: ss', r, r', h | s' :: ss', [], r, r', h => by simp [stateTokens] at h
  | s :: ss, s' :: ss', r, r', h => by
      simp only [List.flatMap_cons, stateTokens, List.cons_append, List.nil_append,
        List.cons.injEq, word.injEq, true_and] at h
      obtain ⟨haccess, hoffset, hsize, hrest⟩ := h
      obtain ⟨rfl, hr⟩ := state_inj hrest
      have hs : s = s' := by
        cases s
        cases s'
        rw [StateEffect.mk.injEq]
        exact ⟨Access.tag_injective haccess, decimal_inj hoffset, decimal_inj hsize⟩
      rw [hs]
      exact ⟨rfl, hr⟩

/-- The range of memory is told from those of the guest state by the third token. -/
theorem memory_ne_state (m : MemEffect) (ss : List StateEffect) :
    memoryTokens address (some m) ++ r ≠ ss.flatMap stateTokens ++ mark ':' :: r' := by
  cases ss <;> simp [memoryTokens, stateTokens]

theorem memory_inj {m m' : Option MemEffect} {ss ss' : List StateEffect}
    (h : memoryTokens address m ++ (ss.flatMap stateTokens ++ mark ':' :: r) =
      memoryTokens address m' ++ (ss'.flatMap stateTokens ++ mark ':' :: r')) :
    m = m' ∧ ss = ss' ∧ r = r' := by
  cases m with
  | none =>
      cases m' with
      | none => exact ⟨rfl, state_inj h⟩
      | some m' => exact absurd h.symm (memory_ne_state m' ss)
  | some m =>
      cases m' with
      | none => exact absurd h (memory_ne_state m ss')
      | some m' =>
          obtain ⟨access, addr, size⟩ := m
          obtain ⟨access', addr', size'⟩ := m'
          simp only [memoryTokens, List.cons_append, List.append_assoc, List.nil_append,
            List.cons.injEq, word.injEq, true_and] at h
          obtain ⟨haccess, haddr⟩ := h
          obtain ⟨rfl, hrest⟩ := Expr.tokens_inj addr haddr
          simp only [List.cons.injEq, word.injEq, true_and] at hrest
          rw [Access.tag_injective haccess, decimal_inj hrest.1]
          exact ⟨rfl, state_inj hrest.2⟩

theorem invocation_inj {c c' : EffectCall} (h : c.invocation address = c'.invocation address) :
    c.helper = c'.helper ∧ c.args = c'.args := by
  simp only [invocation, List.cons.injEq, word.injEq, true_and] at h
  exact ⟨Helper.symbol_injective h.1, ((Expr.operands_inj c.args).1 h.2).1⟩

theorem result_inj {c c' : EffectCall} {t t' : Option Nat}
    (h : resultTokens t ++ c.invocation address = resultTokens t' ++ c'.invocation address) :
    t = t' ∧ c.invocation address = c'.invocation address := by
  cases t <;> cases t' <;> simp [resultTokens, invocation] at h ⊢
  case none.none => exact h
  case some.some => exact ⟨temp_inj h.1, h.2⟩

theorem tokens_injective : Function.Injective (tokens address) := by
  intro c c' h
  obtain ⟨hguard, hrest⟩ := Expr.tokens_inj c.guard (List.cons.inj h).2
  obtain ⟨hmemory, hstate, hrest'⟩ := memory_inj (List.cons.inj hrest).2
  simp only [List.cons.injEq, true_and] at hrest'
  obtain ⟨hresult, hinvocation⟩ := result_inj hrest'
  obtain ⟨hhelper, hargs⟩ := invocation_inj hinvocation
  cases c
  cases c'
  rw [EffectCall.mk.injEq]
  exact ⟨hhelper, hguard, hargs, hresult, hmemory, hstate⟩

end EffectCall

namespace Stmt

/-- The forms of statements. -/
inductive Form where
  | mark | bind | put | store | exit | loadLinked | storeConditional | fence | call | hint

/-- The form of a statement. -/
def form : Stmt → Form
  | .mark _ _ _ => .mark
  | .bind _ _ => .bind
  | .put _ _ => .put
  | .store _ _ _ => .store
  | .exit _ _ _ _ => .exit
  | .loadLinked _ _ _ => .loadLinked
  | .storeConditional _ _ _ _ => .storeConditional
  | .fence => .fence
  | .call _ => .call
  | .hint _ _ _ => .hint

/-- The form of the statement that a row stands for. -/
def Form.ofTokens : List Token → Form
  | .mark c :: _ => if c = '-' then mark else hint
  | .word w :: .mark '(' :: _ => if w = "PUT" then put else store
  | .word _ :: .mark '-' :: _ => fence
  | .word _ :: .mark ' ' :: .mark '(' :: _ => exit
  | .word _ :: .mark ' ' :: .word _ :: _ => call
  | .word _ :: .mark ' ' :: .mark '=' :: .mark ' ' :: .mark '(' :: _ => storeConditional
  | .word _ :: .mark ' ' :: .mark '=' :: .mark ' ' :: .word _ :: .mark '-' :: _ => loadLinked
  | _ => bind

theorem form_tokens (s : Stmt) : Form.ofTokens (s.tokens address) = s.form := by
  cases s with
  | bind t value =>
      obtain ⟨w, ts, hvalue, -, hdash⟩ := value.exists_lead address
      simp only [tokens, hvalue, List.cons_append, List.nil_append]
      -- What a load with a reservation has next, a dash, no expression has.
      unfold Form.ofTokens
      split <;> simp_all [form]
  | store order addr value => cases order <;> rfl
  | call c =>
      obtain ⟨w, ts, hguard, -⟩ := c.guard.exists_lead address
      simp only [tokens, EffectCall.tokens, hguard, List.cons_append]
      rfl
  | _ => rfl

theorem tokens_injective : Function.Injective (tokens address) := by
  intro s s' h
  have hform : s.form = s'.form := by rw [← form_tokens, h, form_tokens]
  cases s with
  | mark addr len delta =>
      cases s' with
      | mark addr' len' delta' =>
          simp only [tokens, List.append_assoc, List.append_cancel_left_eq, List.cons_append,
            List.cons.injEq, word.injEq, true_and] at h
          obtain ⟨haddr, hlen, hdelta, -⟩ := h
          rw [BitVec.eq_of_toNat_eq (hex_inj haddr), decimal_inj hlen, decimal_inj hdelta]
      | _ => cases hform
  | bind t value =>
      cases s' with
      | bind t' value' =>
          simp only [tokens, List.cons_append, List.nil_append, List.cons.injEq, word.injEq,
            true_and] at h
          rw [temp_inj h.1, Expr.tokens_injective h.2]
      | _ => cases hform
  | put offset value =>
      cases s' with
      | put offset' value' =>
          simp only [tokens, List.cons_append, List.nil_append, List.cons.injEq, word.injEq,
            true_and] at h
          rw [decimal_inj h.1, Expr.tokens_injective h.2]
      | _ => cases hform
  | store order addr value =>
      cases s' with
      | store order' addr' value' =>
          simp only [tokens, List.cons_append, List.nil_append, List.cons.injEq, word.injEq,
            true_and] at h
          obtain ⟨rfl, hrest⟩ := Expr.tokens_inj addr h.2
          simp only [List.cons.injEq, true_and] at hrest
          rw [ByteOrder.store_injective h.1, Expr.tokens_injective hrest]
      | _ => cases hform
  | exit guard kind target ipOffset =>
      cases s' with
      | exit guard' kind' target' ipOffset' =>
          simp only [tokens, List.cons_append, List.nil_append, List.cons.injEq, true_and] at h
          obtain ⟨rfl, hrest⟩ := Expr.tokens_inj guard h
          simp only [List.cons.injEq, word.injEq, true_and] at hrest
          obtain ⟨rfl, hkind⟩ := Const.tokens_inj hrest.2
          simp only [List.cons.injEq, word.injEq, true_and, and_true] at hkind
          rw [decimal_inj hrest.1, JumpKind.name_injective hkind]
      | _ => cases hform
  | loadLinked order t addr =>
      cases s' with
      | loadLinked order' t' addr' =>
          simp only [tokens, List.cons_append, List.nil_append, List.cons.injEq, word.injEq,
            true_and] at h
          obtain ⟨ht, horder, haddr⟩ := h
          rw [temp_inj ht, ByteOrder.load_injective horder, (Expr.tokens_inj addr haddr).1]
      | _ => cases hform
  | storeConditional order t addr value =>
      cases s' with
      | storeConditional order' t' addr' value' =>
          simp only [tokens, List.cons_append, List.nil_append, List.cons.injEq, word.injEq,
            true_and] at h
          obtain ⟨ht, horder, haddr⟩ := h
          obtain ⟨rfl, hrest⟩ := Expr.tokens_inj addr haddr
          simp only [List.cons.injEq, true_and] at hrest
          rw [temp_inj ht, ByteOrder.store_injective horder, (Expr.tokens_inj value hrest).1]
      | _ => cases hform
  | fence =>
      cases s' with
      | fence => rfl
      | _ => cases hform
  | call c =>
      cases s' with
      | call c' => rw [EffectCall.tokens_injective (List.cons.inj h).2]
      | _ => cases hform
  | hint base len next =>
      cases s' with
      | hint base' len' next' =>
          simp only [tokens, List.append_assoc, List.append_cancel_left_eq, List.cons_append,
            List.nil_append, List.cons.injEq, true_and] at h
          obtain ⟨rfl, hrest⟩ := Expr.tokens_inj base h
          simp only [List.cons.injEq, word.injEq, true_and] at hrest
          rw [decimal_inj hrest.1, (Expr.tokens_inj next hrest.2).1]
      | _ => cases hform

end Stmt

/-! ## Listings -/

theorem Expr.render_injective (address : Helper → BitVec 64) :
    Function.Injective fun e : Expr => e.render address := by
  intro e e' h
  have hspell : spell (e.tokens address) = spell (e'.tokens address) := by
    rw [← toList_render, ← toList_render]
    exact congrArg String.toList h
  have hspaced : ∀ e : Expr, Spaced (e.tokens address) := fun e => by
    simpa using e.spaced address (r := []) trivial rfl
  exact tokens_injective (spell_inj (hspaced e) (hspaced e') hspell)

theorem Stmt.render_injective (address : Helper → BitVec 64) :
    Function.Injective fun s : Stmt => s.render address := by
  intro s s' h
  have hspell : spell (s.tokens address) = spell (s'.tokens address) := by
    rw [← toList_render, ← toList_render]
    exact congrArg String.toList h
  exact tokens_injective (spell_inj (s.spaced address) (s'.spaced address) hspell)

/-- Listings determine expressions and statements, wherever the helpers live. -/
theorem listings_determine (address : Helper → BitVec 64) :
    (Function.Injective fun e : Expr => e.render address) ∧
      Function.Injective fun s : Stmt => s.render address :=
  ⟨Expr.render_injective address, Stmt.render_injective address⟩

/-- Loads that differ in their byte order only have different listings. -/
theorem listings_determine_orders :
    (Expr.load .little .i32 (.tmp 1)).render ≠ (Expr.load .big .i32 (.tmp 1)).render := by
  intro h
  cases (listings_determine Helper.unplaced).1 h

end PowerLift
