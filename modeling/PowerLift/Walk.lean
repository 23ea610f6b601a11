import PowerLift.Session

/-!
# Forming and walking blocks

A block is formed from consecutive instructions, and goes on behind a branch that may be followed.
It ends where an instruction ends it, at a limit, or where the image ends. The blocks of an image
are then walked breadth first along the addresses at which they can be left.
-/

namespace PowerLift

/-- Limits of a walk. -/
structure Limits where
  maxBlocks : Nat := 16
  /-- Instructions per block; a block has at least one. -/
  maxInsns : Nat := 64
  deriving DecidableEq, Repr, Inhabited

/-- A block and the number of guest instructions in it. -/
structure Formed where
  block : Block
  insns : Nat
  deriving Inhabited

namespace Guest

/-- Lifts the instruction at an address of an image. -/
def step (g : Guest) (image : Image) (addr blockStart : BitVec 64)
    (mayResteer : BitVec 64 → Bool) (block : Block) : Option Report :=
  (image.offset? addr).map fun offset =>
    { g with mayResteer }.lift image.bytes offset addr blockStart block

/-- An empty block. -/
def emptyBlock (g : Guest) : Block := .empty (Layout.specialOffset g.layout .cia)

/-- A block that goes on at a fixed address. -/
def endAt (g : Guest) (block : Block) (addr : BitVec 64) : Block :=
  let target : Const := if g.arch.is64 then .u64 addr else .u32 (addr.setWidth 32)
  { block with next := some (.const target), kind := .boring }

/-- Goes on forming a block at `addr`, for at most `budget` more instructions. Branches are followed
into the image, as long as the instruction there is within the budget. -/
def extend (g : Guest) (image : Image) (start : BitVec 64) :
    (budget : Nat) → (addr : BitVec 64) → Formed → Session Formed
  | 0, addr, formed => return { formed with block := g.endAt formed.block addr }
  | budget + 1, addr, formed => do
      let mayResteer target := decide (0 < budget) && (image.offset? target).isSome
      match g.step image addr start mayResteer formed.block with
      | none =>
          Session.log .debug s!"{Text.hex addr.toNat} is outside the image, ending block"
          return { formed with block := g.endAt formed.block addr }
      | some report =>
          Session.logAll report.log
          let lifted ← Session.ofFault report.result
          let block := report.block
          let insns := formed.insns + 1
          match lifted.next with
          | .continue =>
              let behind ← Session.ofFault (Address.add addr (.ofNat 64 lifted.length))
              extend g image start budget behind ⟨block, insns⟩
          | .resteer target => extend g image start budget target ⟨block, insns⟩
          | .stop kind =>
              return ⟨{ block with next := some (.get block.ipOffset g.arch.wordTy), kind }, insns⟩

/-- Forms the block at an address. -/
def form (g : Guest) (image : Image) (start : BitVec 64) (maxInsns : Nat) : Session Formed :=
  g.extend image start maxInsns start ⟨g.emptyBlock, 0⟩

end Guest

namespace Block

/-- The targets of the side exits, in order. -/
def exits (b : Block) : List (BitVec 64) :=
  b.stmts.toList.filterMap fun
    | .exit _ _ target _ => target.toNat?.map (BitVec.ofNat 64)
    | _ => none

/-- The last value written to the instruction address, where it is a literal. -/
def lastAddress? (b : Block) : Option (BitVec 64) :=
  let literal (e : Expr) : Option (BitVec 64) :=
    (e.asConst?.bind Const.toNat?).map (BitVec.ofNat 64)
  b.stmts.foldl (fun last => fun
    | .put offset value => if offset = b.ipOffset then literal value else last
    | _ => last) none

/-- The fixed addresses at which a block can be left: side exits, then the end. -/
def successors (b : Block) : List (BitVec 64) :=
  let last := match b.kind with
    | .boring | .call | .sysSyscall =>
        match b.next.bind Expr.asConst? with
        | some c => c.toNat?.map (BitVec.ofNat 64)
        | none => b.lastAddress?
    | _ => none
  b.exits ++ last.toList

end Block

namespace Guest

/-- Prints a formed block. -/
def showBlock (addr : BitVec 64) (formed : Formed) : Session Unit := do
  let address := Text.hexAtLeast 8 addr.toNat
  Session.print s!"==== {address}: {formed.insns} instruction(s), {formed.block.kind.name} ===="
  formed.block.render.forM Session.print
  Session.print ""

/-- Walks the queued addresses, for at most `budget` more blocks, and returns the number of blocks.
An address is visited once, and only where an instruction word stands in the image. -/
def visit (g : Guest) (image : Image) (maxInsns budget : Nat) (queue seen : List (BitVec 64))
    (blocks : Nat) : Session Nat :=
  match queue, budget with
  | [], _ => return blocks
  | _ :: rest, 0 => do
      Session.log .info s!"block limit reached, {rest.length + 1} targets left unvisited"
      return blocks
  | addr :: rest, left + 1 =>
      if seen.contains addr then visit g image maxInsns (left + 1) rest seen blocks
      else if (image.offset? addr).isNone then
        visit g image maxInsns (left + 1) rest (addr :: seen) blocks
      else do
        let formed ← g.form image addr maxInsns
        showBlock addr formed
        let seen := addr :: seen
        let fresh := formed.block.successors.filter fun next => !seen.contains next
        visit g image maxInsns left (rest ++ fresh) seen (blocks + 1)
termination_by (budget, queue.length)

/-- Walks the blocks of an image from an entry on and prints them. -/
def walk (g : Guest) (image : Image) (entry : BitVec 64) (limits : Limits) : Session Unit := do
  if (image.offset? entry).isNone then
    throw (.entryOutside entry image.base (← Session.ofFault image.finish))
  if entry % 4 ≠ 0 then throw (.entryUnaligned entry)
  let blocks ← g.visit image (Nat.max 1 limits.maxInsns) limits.maxBlocks [entry] [] 0
  Session.print s!"Decoded {blocks} block(s)"

end Guest

end PowerLift
