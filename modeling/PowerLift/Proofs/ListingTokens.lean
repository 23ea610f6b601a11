import PowerLift.Proofs.OperatorNames

/-!
# Listings as rows of tokens

Expressions and statements are written as rows of words and marks. The rows spell the listings, and
no word in them follows another directly, so that a listing can be taken apart again. Helpers may
live at any addresses.
-/

namespace PowerLift

open Text Token

/-! ## The rows -/

namespace Const

def tokens : Const → List Token
  | u1 b => [word (if b then "1" else "0"), mark ':', word "I1"]
  | u8 v => [word (hex v.toNat), mark ':', word "I8"]
  | u16 v => [word (hex v.toNat), mark ':', word "I16"]
  | u32 v => [word (hex v.toNat), mark ':', word "I32"]
  | u64 v => [word (hex v.toNat), mark ':', word "I64"]
  | f32 v => [word "F32", mark '\x7b', word (hex v.toNat), mark '\x7d']
  | f64 v => [word "F64", mark '\x7b', word (hex v.toNat), mark '\x7d']
  | v128 v => [word "V128", mark '\x7b', word (hexAtLeast 4 v.toNat), mark '\x7d']

end Const

namespace Expr

mutual

/-- The row of an expression. -/
def tokens (address : Helper → BitVec 64) : Expr → List Token
  | .get offset ty =>
      [word "GET", mark ':', word ty.name, mark '(', word offset.repr, mark ')']
  | .tmp t => [word (temp t)]
  | .const c => c.tokens
  | .apply op args => word op.name :: mark '(' :: (operandTokens address [] args ++ [mark ')'])
  | .load order ty addr =>
      word ("LD" ++ order.tag) :: mark ':' :: word ty.name :: mark '(' ::
        (tokens address addr ++ [mark ')'])
  | .ite cond yes no =>
      word "ITE" :: mark '(' :: (tokens address cond ++ mark ',' :: (tokens address yes ++
        mark ',' :: (tokens address no ++ [mark ')'])))
  | .call helper ret args =>
      [word helper.symbol, mark '\x7b', word (hex (address helper).toNat), mark '\x7d', mark '('] ++
        (operandTokens address [] args ++ [mark ')', mark ':', word ret.name])

/-- The row of operands; `lead` stands before the first, a comma before each other. -/
def operandTokens (address : Helper → BitVec 64) (lead : List Token) : List Expr → List Token
  | [] => []
  | e :: es => lead ++ (tokens address e ++ operandTokens address [mark ','] es)

end

end Expr

variable (address : Helper → BitVec 64)

namespace EffectCall

/-- The row of the memory range of a call. -/
def memoryTokens : Option MemEffect → List Token
  | none => []
  | some m => word m.access.tag :: mark '-' :: word "mem" :: mark '(' ::
      (m.addr.tokens address ++ [mark ',', word m.size.repr, mark ')', mark ' '])

/-- The row of a range of the guest state. -/
def stateTokens (s : StateEffect) : List Token :=
  [word s.access.tag, mark '-', word "gst", mark '(', word s.offset.repr, mark ',',
    word s.size.repr, mark ')', mark ' ']

/-- The row of the result of a call. -/
def resultTokens : Option Nat → List Token
  | none => []
  | some t => [mark ' ', word (temp t), mark ' ', mark '=']

/-- The row of the call itself. -/
def invocation (c : EffectCall) : List Token :=
  mark ' ' :: word c.helper.symbol :: mark '(' ::
    (Expr.operandTokens address [] c.args ++ [mark ')'])

/-- The row of a call with effects, behind its first word. -/
def tokens (c : EffectCall) : List Token :=
  mark ' ' :: (c.guard.tokens address ++ mark ' ' :: (memoryTokens address c.memory ++
    (c.state.flatMap stateTokens ++ mark ':' :: mark ':' :: mark ':' ::
      (resultTokens c.result ++ c.invocation address))))

end EffectCall

namespace Stmt

/-- A rule that frames a statement. -/
def rule (c : Char) : List Token := List.replicate 6 (.mark c)

/-- The row of a statement. -/
def tokens : Stmt → List Token
  | .mark addr len delta =>
      rule '-' ++ [.mark ' ', word "IMark", .mark '(', word (hex addr.toNat), .mark ',', .mark ' ',
        word len.repr, .mark ',', .mark ' ', word delta.repr, .mark ')', .mark ' '] ++
        rule '-'
  | .bind t value => [word (temp t), .mark ' ', .mark '=', .mark ' '] ++ value.tokens address
  | .put offset value =>
      [word "PUT", .mark '(', word offset.repr, .mark ')', .mark ' ', .mark '=', .mark ' '] ++
        value.tokens address
  | .store order addr value =>
      [word ("ST" ++ order.tag), .mark '('] ++
        (addr.tokens address ++ ([.mark ')', .mark ' ', .mark '=', .mark ' '] ++
          value.tokens address))
  | .exit guard kind target ipOffset =>
      [word "if", .mark ' ', .mark '('] ++ (guard.tokens address ++
        ([.mark ')', .mark ' ', .mark '\x7b', .mark ' ', word "PUT", .mark '(',
          word ipOffset.repr, .mark ')', .mark ' ', .mark '=', .mark ' '] ++
          (target.tokens ++ [.mark ';', .mark ' ', word "exit", .mark '-', word kind.name,
            .mark ' ', .mark '\x7d'])))
  | .loadLinked order t addr =>
      [word (temp t), .mark ' ', .mark '=', .mark ' ', word ("LD" ++ order.tag), .mark '-',
        word "Linked", .mark '('] ++ (addr.tokens address ++ [.mark ')'])
  | .storeConditional order t addr value =>
      [word (temp t), .mark ' ', .mark '=', .mark ' ', .mark '(', .mark ' ',
        word ("ST" ++ order.tag), .mark '-', word "Cond", .mark '('] ++ (addr.tokens address ++
          ([.mark ')', .mark ' ', .mark '=', .mark ' '] ++
            (value.tokens address ++ [.mark ' ', .mark ')'])))
  | .fence => [word "IR", .mark '-', word "MBusEvent", .mark '-', word "Fence"]
  | .call c => word "DIRTY" :: c.tokens address
  | .hint base len next =>
      rule '=' ++ [.mark ' ', word "AbiHint", .mark '('] ++ (base.tokens address ++
        ([.mark ',', .mark ' ', word len.repr, .mark ',', .mark ' '] ++
          (next.tokens address ++ ([.mark ')', .mark ' '] ++ rule '='))))

end Stmt

/-! ## The rows spell the listings -/

theorem Const.toList_render (c : Const) : c.render.toList = spell c.tokens := by
  cases c <;> simp [render, tokens, braced]

theorem toList_separated (s : String) (ss : List String) :
    (separated "," (s :: ss)).toList = s.toList ++ ss.flatMap fun s => ',' :: s.toList := by
  induction ss generalizing s with
  | nil => simp [separated]
  | cons s' ss ih =>
      have hrest := ih s'
      rw [separated] at hrest ⊢
      rw [String.intercalate_cons_cons, String.toList_append, String.toList_append, hrest]
      simp

namespace Expr

mutual

theorem toList_render : ∀ e : Expr, (e.render address).toList = spell (e.tokens address)
  | .get offset ty => by simp [render, tokens, toString]
  | .tmp t => by simp [render, tokens]
  | .const c => by simp [render, tokens, c.toList_render]
  | .apply op args => by simp [render, tokens, toString, (toList_operands args).1]
  | .load order ty addr => by simp [render, tokens, toString, toList_render addr]
  | .ite cond yes no => by
      simp [render, tokens, toList_render cond, toList_render yes, toList_render no]
  | .call helper ret args => by
      simp [render, tokens, toString, braced, (toList_operands args).1]

theorem toList_operands : ∀ es : List Expr,
    (separated "," (renderAll es address)).toList = spell (operandTokens address [] es) ∧
      ((renderAll es address).flatMap fun s => ',' :: s.toList) =
        spell (operandTokens address [mark ','] es)
  | [] => ⟨rfl, rfl⟩
  | e :: es => by
      rw [renderAll, toList_separated]
      simp [operandTokens, toList_render e, (toList_operands es).2]

end

end Expr

namespace EffectCall

theorem toList_renderState (ss : List StateEffect) :
    (String.join (ss.map fun s => s!"{s.access.tag}-gst({s.offset},{s.size}) ")).toList =
      spell (ss.flatMap stateTokens) := by
  induction ss with
  | nil => rfl
  | cons s ss ih => simp_all [stateTokens, toString]

theorem toList_render (c : EffectCall) :
    (c.render address).toList = spell (word "DIRTY" :: c.tokens address) := by
  obtain ⟨helper, guard, args, result, memory, state⟩ := c
  unfold render
  simp only [String.toList_append, toList_renderState]
  cases memory <;> cases result <;>
    simp [tokens, memoryTokens, resultTokens, invocation, toString, Expr.toList_render,
      (Expr.toList_operands address args).1]

end EffectCall

/-- The row of a statement spells its listing. -/
theorem Stmt.toList_render (s : Stmt) : (s.render address).toList = spell (s.tokens address) := by
  unfold render tokens
  cases s with
  | call c => exact c.toList_render address
  | _ =>
      simp [rule, toString, braced, Expr.toList_render, Const.toList_render,
        List.replicate]

/-! ## No word follows another -/

theorem Ty.isWord_name (ty : Ty) : IsWord ty.name := by cases ty <;> decide

theorem Helper.isWord_symbol (h : Helper) : IsWord h.symbol := by cases h <;> decide

theorem JumpKind.isWord_name (kind : JumpKind) : IsWord kind.name := by cases kind <;> decide

theorem Access.isWord_tag (a : Access) : IsWord a.tag := by cases a <;> decide

theorem ByteOrder.isWord_load (order : ByteOrder) : IsWord ("LD" ++ order.tag) := by
  cases order <;> decide

theorem ByteOrder.isWord_store (order : ByteOrder) : IsWord ("ST" ++ order.tag) := by
  cases order <;> decide

theorem isWord_truth (b : Bool) : IsWord (if b then "1" else "0") := by cases b <;> decide

theorem Const.spaced (c : Const) {r : List Token} (hr : Spaced r) (hopens : opensWord r = false) :
    Spaced (c.tokens ++ r) := by
  cases c <;> simp +decide [tokens, Spaced, hr, hopens, isWord_hex, isWord_hexAtLeast,
    isWord_truth]

namespace Expr

mutual

theorem spaced : ∀ (e : Expr) {r : List Token}, Spaced r → opensWord r = false →
    Spaced (e.tokens address ++ r)
  | .get _ ty, r, hr, hopens => by
      simp +decide [tokens, Spaced, hr, ty.isWord_name, isWord_decimal]
  | .tmp t, r, hr, hopens => by
      simp [tokens, Spaced, hr, hopens, isWord_temp]
  | .const c, r, hr, hopens => c.spaced hr hopens
  | .apply op args, r, hr, hopens => by
      have hargs := (spaced_operands args (r := mark ')' :: r) (by simp +decide [Spaced, hr]) rfl).1
      simp +decide [tokens, Spaced, op.isWord_name, hargs]
  | .load order ty addr, r, hr, hopens => by
      have haddr := spaced addr (r := mark ')' :: r) (by simp +decide [Spaced, hr]) rfl
      simp +decide [tokens, Spaced, order.isWord_load, ty.isWord_name, haddr]
  | .ite cond yes no, r, hr, hopens => by
      have hno := spaced no (r := mark ')' :: r) (by simp +decide [Spaced, hr]) rfl
      have hyes := spaced yes (r := mark ',' :: (no.tokens address ++ mark ')' :: r))
        (by simp +decide [Spaced, hno]) rfl
      have hcond := spaced cond
        (r := mark ',' :: (yes.tokens address ++ mark ',' :: (no.tokens address ++ mark ')' :: r)))
        (by simp +decide [Spaced, hyes]) rfl
      simp +decide [tokens, Spaced, hcond]
  | .call helper ret args, r, hr, hopens => by
      have hargs := (spaced_operands args (r := mark ')' :: mark ':' :: word ret.name :: r)
        (by simp +decide [Spaced, hr, hopens, ret.isWord_name]) rfl).1
      simp +decide [tokens, Spaced, helper.isWord_symbol, isWord_hex, hargs]

theorem spaced_operands : ∀ (es : List Expr) {r : List Token}, Spaced r → opensWord r = false →
    Spaced (operandTokens address [] es ++ r) ∧
      Spaced (operandTokens address [mark ','] es ++ r)
  | [], r, hr, hopens => ⟨hr, hr⟩
  | e :: es, r, hr, hopens => by
      have hes := (spaced_operands es hr hopens).2
      have hopens' : opensWord (operandTokens address [mark ','] es ++ r) = false := by
        cases es <;> simp [operandTokens, hopens]
      have he := spaced e hes hopens'
      simp +decide [operandTokens, Spaced, he]

end

end Expr

namespace EffectCall

variable {r : List Token}

theorem spaced_memory (m : Option MemEffect) (hr : Spaced r) :
    Spaced (memoryTokens address m ++ r) := by
  cases m with
  | none => exact hr
  | some m =>
      have haddr := m.addr.spaced address
        (r := mark ',' :: word m.size.repr :: mark ')' :: mark ' ' :: r)
        (by simp +decide [Spaced, hr, isWord_decimal]) rfl
      simp +decide [memoryTokens, Spaced, haddr, m.access.isWord_tag]

theorem spaced_state (ss : List StateEffect) (hr : Spaced r) :
    Spaced (ss.flatMap stateTokens ++ r) := by
  induction ss with
  | nil => exact hr
  | cons s ss ih => simp +decide [stateTokens, Spaced, ih, s.access.isWord_tag, isWord_decimal]

theorem spaced_result (t : Option Nat) (hr : Spaced r) : Spaced (resultTokens t ++ r) := by
  cases t with
  | none => exact hr
  | some t => simp +decide [resultTokens, Spaced, isWord_temp, hr]

theorem spaced_invocation (c : EffectCall) : Spaced (c.invocation address) := by
  have hargs := (Expr.spaced_operands address c.args (r := [mark ')'])
    (by simp +decide [Spaced]) rfl).1
  simp +decide [invocation, Spaced, c.helper.isWord_symbol, hargs]

theorem spaced (c : EffectCall) : Spaced (c.tokens address) := by
  have hresult := spaced_result c.result (c.spaced_invocation address)
  have hstate := spaced_state c.state (r := mark ':' :: mark ':' :: mark ':' ::
    (resultTokens c.result ++ c.invocation address)) (by simp +decide [Spaced, hresult])
  have hmemory := spaced_memory address c.memory hstate
  exact ⟨by decide, c.guard.spaced address ⟨by decide, hmemory⟩ rfl⟩

end EffectCall

/-- The row of a statement can be read off its listing. -/
theorem Stmt.spaced (s : Stmt) : Spaced (s.tokens address) := by
  have hend : ∀ e : Expr, Spaced (e.tokens address) := fun e => by
    simpa using e.spaced address (r := []) trivial rfl
  cases s with
  | mark addr len delta =>
      simp +decide [tokens, rule, List.replicate, Spaced, isWord_hex, isWord_decimal]
  | bind t value => simp +decide [tokens, Spaced, isWord_temp, hend]
  | put offset value => simp +decide [tokens, Spaced, isWord_decimal, hend]
  | store order addr value =>
      have haddr := addr.spaced address (r := .mark ')' :: .mark ' ' :: .mark '=' :: .mark ' ' ::
        value.tokens address) (by simp +decide [Spaced, hend]) rfl
      simp +decide [tokens, Spaced, order.isWord_store, haddr]
  | exit guard kind target ipOffset =>
      have htarget := target.spaced (r := [.mark ';', .mark ' ', word "exit", .mark '-',
        word kind.name, .mark ' ', .mark '\x7d'])
        (by simp +decide [Spaced, kind.isWord_name]) rfl
      have hguard := guard.spaced address (r := [.mark ')', .mark ' ', .mark '\x7b', .mark ' ',
        word "PUT", .mark '(', word ipOffset.repr, .mark ')', .mark ' ', .mark '=', .mark ' '] ++
          (target.tokens ++ [.mark ';', .mark ' ', word "exit", .mark '-', word kind.name,
            .mark ' ', .mark '\x7d'])) (by simp +decide [Spaced, isWord_decimal, htarget]) rfl
      simpa +decide [tokens, Spaced] using hguard
  | loadLinked order t addr =>
      have haddr := addr.spaced address (r := [.mark ')']) (by simp +decide [Spaced]) rfl
      simp +decide [tokens, Spaced, isWord_temp, order.isWord_load, haddr]
  | storeConditional order t addr value =>
      have hvalue := value.spaced address (r := [.mark ' ', .mark ')'])
        (by simp +decide [Spaced]) rfl
      have haddr := addr.spaced address (r := .mark ')' :: .mark ' ' :: .mark '=' :: .mark ' ' ::
        (value.tokens address ++ [.mark ' ', .mark ')'])) (by simp +decide [Spaced, hvalue]) rfl
      simp +decide [tokens, Spaced, isWord_temp, order.isWord_store, haddr]
  | fence => simp +decide [tokens, Spaced]
  | call c => exact ⟨by decide, rfl, c.spaced address⟩
  | hint base len next =>
      have hnext := next.spaced address (r := .mark ')' :: .mark ' ' :: rule '=')
        (by simp +decide [Spaced, rule, List.replicate]) rfl
      have hbase := base.spaced address
        (r := [.mark ',', .mark ' ', word len.repr, .mark ',', .mark ' '] ++
          (next.tokens address ++ .mark ')' :: .mark ' ' :: rule '='))
        (by simp +decide [Spaced, isWord_decimal, hnext]) rfl
      simpa +decide [tokens, rule, List.replicate, Spaced] using hbase

end PowerLift
