import PowerLift.Walk

/-!
# Running blocks

Statements act on temporaries, memory and guest state in order; an exit that is taken leaves the
block. Operators, memory and helpers are left to an interpretation. The guest state is a record of
bytes, so that accesses at different places may overlap.
-/

namespace PowerLift

/-! ## Values and guest state -/

/-- A value of the intermediate representation. -/
structure Value where
  ty : Ty
  bits : BitVec ty.bits
  deriving DecidableEq

namespace Value

instance : Inhabited Value := ⟨⟨.i1, 0⟩⟩

/-- The truth that a guard has. -/
def isTrue (v : Value) : Bool := v.bits != 0

/-- A value as an address. -/
def address (v : Value) : BitVec 64 := v.bits.setWidth 64

end Value

namespace Const

/-- The vector whose byte lanes below `n` are given by a mask. -/
def lanes (mask : BitVec 16) : Nat → BitVec 128
  | 0 => 0
  | n + 1 => lanes mask n ||| if mask.getLsbD n then 0xFF <<< (8 * n) else 0

/-- The value of a literal. -/
def value : Const → Value
  | u1 b => ⟨.i1, .ofBool b⟩
  | u8 v => ⟨.i8, v⟩
  | u16 v => ⟨.i16, v⟩
  | u32 v => ⟨.i32, v⟩
  | u64 v => ⟨.i64, v⟩
  | f32 v => ⟨.f32, v⟩
  | f64 v => ⟨.f64, v⟩
  | v128 mask => ⟨.v128, lanes mask 16⟩

theorem ty_value (c : Const) : c.value.ty = c.ty := by cases c <;> rfl

end Const

/-- The bytes of the guest state. -/
abbrev GuestState := Nat → BitVec 8

/-- Where the byte of weight `256 ^ i` stands among `n` bytes. -/
def ByteOrder.position (order : ByteOrder) (n i : Nat) : Nat :=
  match order with
  | .little => i
  | .big => n - 1 - i

namespace GuestState

/-- The number whose first `n` bytes, the least significant first, are given. -/
def gather (byte : Nat → BitVec 8) : Nat → Nat
  | 0 => 0
  | n + 1 => gather byte n + (byte n).toNat <<< (8 * n)

/-- The bits stored at an offset. -/
def read (σ : GuestState) (order : ByteOrder) (offset : Nat) (ty : Ty) : BitVec ty.bits :=
  .ofNat _ (gather (fun i => σ (offset + order.position ty.bytes i)) ty.bytes)

/-- The state with a value stored at an offset. -/
def write (σ : GuestState) (order : ByteOrder) (offset : Nat) (v : Value) : GuestState := fun o =>
  if offset ≤ o ∧ o < offset + v.ty.bytes then
    v.bits.extractLsb' (8 * order.position v.ty.bytes (o - offset)) 8
  else σ o

end GuestState

namespace GuestState

variable {σ σ' : GuestState} {order : ByteOrder} {offset : Nat} {ty : Ty} {v : Value}

theorem gather_congr {byte byte' : Nat → BitVec 8} {n : Nat} (h : ∀ i < n, byte i = byte' i) :
    gather byte n = gather byte' n := by
  induction n with
  | zero => rfl
  | succ n ih => rw [gather, gather, ih fun i hi => h i (by omega), h n (by omega)]

theorem position_lt (order : ByteOrder) {n i : Nat} (hi : i < n) : order.position n i < n := by
  cases order <;> simp only [ByteOrder.position] <;> omega

theorem position_position (order : ByteOrder) {n i : Nat} (hi : i < n) :
    order.position n (order.position n i) = i := by
  cases order with
  | little => rfl
  | big =>
      simp only [ByteOrder.position]
      omega

/-- A read depends on the bytes that it covers. -/
theorem read_congr (h : ∀ o, offset ≤ o → o < offset + ty.bytes → σ o = σ' o) :
    σ.read order offset ty = σ'.read order offset ty := by
  refine congrArg (BitVec.ofNat _) (gather_congr fun i hi => ?_)
  have hlt := position_lt order hi
  exact h _ (by omega) (by omega)

/-- The bytes of a number are gathered to its low part. -/
theorem gather_extract {w : Nat} (x : BitVec w) (n : Nat) :
    gather (fun i => x.extractLsb' (8 * i) 8) n = (x.setWidth (8 * n)).toNat := by
  rw [BitVec.toNat_setWidth]
  induction n with
  | zero => simp [gather, Nat.mod_one]
  | succ n ih =>
      rw [gather, ih, Nat.mul_succ, Nat.pow_add, Nat.mod_mul, BitVec.extractLsb'_toNat,
        Nat.shiftRight_eq_div_pow, Nat.shiftLeft_eq, Nat.mul_comm (2 ^ (8 * n))]

/-- What the bytes of a number are is what is read. -/
theorem read_eq_of_bytes {x : BitVec ty.bits} (hty : ty ≠ .i1)
    (h : ∀ i < ty.bytes, σ (offset + order.position ty.bytes i) = x.extractLsb' (8 * i) 8) :
    σ.read order offset ty = x := by
  -- Truth values are left out: they have no bytes, but a bit.
  have hbits : 8 * ty.bytes = ty.bits := by
    cases ty <;> simp_all [Ty.bytes, Ty.bits]
  have hgather : gather (fun i => σ (offset + order.position ty.bytes i)) ty.bytes = x.toNat := by
    rw [gather_congr h, gather_extract, hbits, BitVec.setWidth_eq]
  rw [read, hgather, BitVec.ofNat_toNat, BitVec.setWidth_eq]

/-- A read gives back what was written. -/
theorem read_write (hty : v.ty ≠ .i1) :
    (σ.write order offset v).read order offset v.ty = v.bits := by
  -- Each byte is stored where it is read from, whatever the order.
  refine read_eq_of_bytes hty fun i hi => ?_
  have hlt := position_lt order hi
  rw [write, if_pos (by omega), Nat.add_sub_cancel_left, position_position order hi]

/-- A byte is read as it is stored. -/
theorem read_i8 : σ.read order offset .i8 = σ offset := by
  cases order <;> simp [read, gather, ByteOrder.position, Ty.bytes, Ty.bits]

theorem write_i8 (x : BitVec 8) (o : Nat) :
    σ.write order offset ⟨.i8, x⟩ o = if o = offset then x else σ o := by
  have hwithin : (offset ≤ o ∧ o < offset + Ty.i8.bytes) ↔ o = offset := by
    simp only [Ty.bytes, Ty.bits]
    omega
  simp only [write, hwithin]
  split
  next heq =>
    subst heq
    cases order <;> simp [ByteOrder.position, Ty.bytes, Ty.bits]
  next => rfl

/-- An address that was written is read back. -/
theorem read_write_address (hv : v.ty = ty) (hty : ty ≠ .i1) :
    ((σ.write order offset v).read order offset ty).setWidth 64 = v.address := by
  subst hv
  rw [read_write hty, Value.address]

end GuestState

/-! ## Interpretations -/

/-- What a call with effects leaves: a result, memory, and the parts of the state it may touch. -/
structure Called (M : Type) where
  result (ty : Ty) : BitVec ty.bits
  memory : M
  state : List (List (BitVec 8))

/-- A meaning for operators, memory and helpers. Memory holds all that is not guest state, the
reservation and the time base too. -/
structure Interp (M : Type) where
  /-- Byte order of the guest state. -/
  order : ByteOrder
  op (op : Op) : List Value → BitVec op.signature.ret.bits
  helper : Helper → (ret : Ty) → List Value → BitVec ret.bits
  load : M → ByteOrder → (ty : Ty) → Value → BitVec ty.bits
  store : M → ByteOrder → Value → Value → M
  loadLinked : M → ByteOrder → (ty : Ty) → Value → BitVec ty.bits × M
  storeConditional : M → ByteOrder → Value → Value → Bool × M
  fence : M → M
  /-- The bytes from an address on lose their contents. -/
  hint : M → Value → Nat → Value → M
  /-- A call sees its arguments, the memory range and the state ranges that it declares. -/
  call : M → Helper → List Value → Option (Access × Value × Nat) → List (List (BitVec 8)) → Called M

/-- The state in which statements run. -/
structure Machine (M : Type) where
  temps : Nat → Value
  memory : M
  state : GuestState

namespace Machine

variable {M : Type}

/-- A machine before the first statement of a block. -/
def start (memory : M) (state : GuestState) : Machine M := ⟨fun _ => default, memory, state⟩

/-- Binds a temporary. -/
def bind (m : Machine M) (t : Nat) (v : Value) : Machine M :=
  { m with temps := fun u => if u = t then v else m.temps u }

end Machine

/-- How a block was left. -/
structure Left (M : Type) where
  /-- The address of the instruction that runs next. -/
  pc : BitVec 64
  kind : JumpKind
  memory : M
  state : GuestState

/-- What running statements amounts to. -/
inductive Flow (M : Type) where
  /-- Control is behind the statements. -/
  | behind (m : Machine M)
  /-- An exit was taken. -/
  | left (l : Left M)

/-- Goes on behind statements, unless an exit was taken. -/
def Flow.andThen {M : Type} (flow : Flow M) (f : Machine M → Flow M) : Flow M :=
  match flow with
  | .behind m => f m
  | .left l => .left l

/-! ## Expressions, statements and blocks -/

section

variable {M : Type} (I : Interp M)

mutual

/-- The value of an expression. -/
def Expr.eval (m : Machine M) : Expr → Value
  | .get offset ty => ⟨ty, m.state.read I.order offset ty⟩
  | .tmp t => m.temps t
  | .const c => c.value
  | .apply op args => ⟨op.signature.ret, I.op op (Expr.evalAll m args)⟩
  | .load order ty addr => ⟨ty, I.load m.memory order ty (Expr.eval m addr)⟩
  | .ite cond yes no => if (Expr.eval m cond).isTrue then Expr.eval m yes else Expr.eval m no
  | .call helper ret args => ⟨ret, I.helper helper ret (Expr.evalAll m args)⟩

/-- The values of several expressions. -/
def Expr.evalAll (m : Machine M) : List Expr → List Value
  | [] => []
  | e :: es => Expr.eval m e :: Expr.evalAll m es

end

section

-- The equations of the two functions are made here, once for all the proofs that unfold them.
attribute [local simp] Expr.eval Expr.evalAll

end

namespace EffectCall

/-- The parts of the state that a call declares. -/
def view (c : EffectCall) (σ : GuestState) : List (List (BitVec 8)) :=
  c.state.map fun part => (List.range part.size).map fun i => σ (part.offset + i)

/-- The state with new contents in the parts that a call may write. -/
def update (c : EffectCall) (σ : GuestState) (parts : List (List (BitVec 8))) : GuestState :=
  -- A later part overwrites an earlier one, and bytes that are not given stay.
  (c.state.zip parts).foldl (fun σ (part, bytes) o =>
    if part.access ≠ .read ∧ part.offset ≤ o ∧ o < part.offset + part.size then
      bytes[o - part.offset]?.getD (σ o)
    else σ o) σ

/-- The effect of a call whose guard holds, over temporaries of the types given. -/
def run (types : Array Ty) (m : Machine M) (c : EffectCall) : Machine M :=
  let range := c.memory.map fun e => (e.access, e.addr.eval I m, e.size)
  let called := I.call m.memory c.helper (Expr.evalAll I m c.args) range (c.view m.state)
  let m := { m with memory := called.memory, state := c.update m.state called.state }
  match c.result with
  | some t =>
      let ty := types[t]?.getD default
      m.bind t ⟨ty, called.result ty⟩
  | none => m

end EffectCall

/-- Runs a statement, over temporaries of the types given. -/
def Stmt.run (types : Array Ty) (m : Machine M) : Stmt → Flow M
  | .mark _ _ _ => .behind m
  | .bind t value => .behind (m.bind t (value.eval I m))
  | .put offset value =>
      .behind { m with state := m.state.write I.order offset (value.eval I m) }
  | .store order addr value =>
      .behind { m with memory := I.store m.memory order (addr.eval I m) (value.eval I m) }
  | .exit guard kind target ipOffset =>
      if (guard.eval I m).isTrue then
        -- The target is also left in the state, as the instruction address.
        let state := m.state.write I.order ipOffset target.value
        .left ⟨target.value.address, kind, m.memory, state⟩
      else .behind m
  | .loadLinked order t addr =>
      let ty := types[t]?.getD default
      let (bits, memory) := I.loadLinked m.memory order ty (addr.eval I m)
      .behind ({ m with memory }.bind t ⟨ty, bits⟩)
  | .storeConditional order t addr value =>
      let (stored, memory) := I.storeConditional m.memory order (addr.eval I m) (value.eval I m)
      .behind ({ m with memory }.bind t ⟨.i1, .ofBool stored⟩)
  | .fence => .behind { m with memory := I.fence m.memory }
  | .call c => .behind (if (c.guard.eval I m).isTrue then c.run I types m else m)
  | .hint base len next =>
      .behind { m with memory := I.hint m.memory (base.eval I m) len (next.eval I m) }

/-- Runs statements in order, up to the first exit that is taken. -/
def runAll (types : Array Ty) : List Stmt → Machine M → Flow M
  | [], m => .behind m
  | stmt :: rest, m => (stmt.run I types m).andThen (runAll types rest)

theorem runAll_single (types : Array Ty) (stmt : Stmt) (m : Machine M) :
    runAll I types [stmt] m = stmt.run I types m := by
  rw [runAll]
  cases stmt.run I types m <;> rfl

theorem runAll_append (types : Array Ty) (ss ss' : List Stmt) (m : Machine M) :
    runAll I types (ss ++ ss') m = (runAll I types ss m).andThen (runAll I types ss') := by
  induction ss generalizing m with
  | nil => rfl
  | cons stmt ss ih =>
      simp only [List.cons_append, runAll]
      cases stmt.run I types m with
      | behind m => exact ih m
      | left l => rfl

/-- Leaves a block whose statements have run. -/
def Block.leave (b : Block) : Flow M → Option (Left M)
  | .left l => some l
  | .behind m => b.next.map fun next => ⟨(next.eval I m).address, b.kind, m.memory, m.state⟩

/-- Runs a block; there is no answer for a block without a final target. -/
def Block.run (b : Block) (memory : M) (state : GuestState) : Option (Left M) :=
  b.leave I (runAll I b.types b.stmts.toList (.start memory state))

end

/-! ## One instruction at a time -/

namespace Guest

variable {M : Type} (I : Interp M)

/-- Where control is behind an instruction that was lifted alone, and how it came there: behind the
instruction, or where the instruction address says. -/
def arrive (g : Guest) (addr : BitVec 64) (lifted : Lifted) (m : Machine M) :
    BitVec 64 × JumpKind :=
  match lifted.next with
  | .continue => (addr + .ofNat 64 lifted.length, .boring)
  | .resteer target => (target, .boring)
  | .stop kind =>
      ((m.state.read I.order g.emptyBlock.ipOffset g.arch.wordTy).setWidth 64, kind)

/-- Runs `n` instructions from an address on, each lifted by itself and without following branches.
The run is over early where an exit is taken. -/
def interpret (g : Guest) (image : Image) :
    (n : Nat) → (addr : BitVec 64) → JumpKind → M → GuestState → Option (Left M)
  -- Behind the last word of a 32-bit memory comes the first.
  | 0, addr, kind, memory, state => some ⟨(g.env addr addr).cutAddress addr, kind, memory, state⟩
  | n + 1, addr, _, memory, state => do
      let report ← g.step image addr addr (fun _ => false) g.emptyBlock
      let lifted ← report.result.toOption
      match runAll I report.block.types report.block.stmts.toList (.start memory state) with
      | .left l => return l
      | .behind m =>
          let (next, kind) := g.arrive I addr lifted m
          interpret g image n next kind m.memory m.state

end Guest

end PowerLift
