import PowerLift.Hook
import PowerLift.Text.Listing

/-!
# Lifting at a code position

One instruction, or one request, is lifted at a time and becomes part of a block as a whole. A
refused word leaves nothing behind but a write of its own address, and the block ends there. A fault
leaves the block as it was.
-/

namespace PowerLift

/-- A guest: its processor, and how its code is to be lifted. -/
structure Guest where
  arch : Arch
  info : Processor := {}
  abi : CallConvention := {}
  /-- Byte order of emitted memory accesses. -/
  host : ByteOrder := .little
  /-- The variant whose layout the guest state has. -/
  layout : Arch := arch
  /-- Whether a branch may be followed within a block. -/
  mayResteer : BitVec 64 → Bool := fun _ => false
  injector : Option Injector := none
  /-- Whether refused words are reported as warnings. -/
  warnRefused : Bool := false

/-- What one lifting amounts to. -/
structure Lifted where
  /-- Bytes consumed; zero for a refused word. -/
  length : Nat
  next : Continuation
  /-- The request that was served, if one was. -/
  hook : Option Hook := none
  deriving DecidableEq, Repr, Inhabited

namespace Lifted

/-- Whether the word was refused. -/
def isRefused (l : Lifted) : Bool := l.next == .stop .noDecode

end Lifted

/-- What a lifting leaves behind. -/
structure Report where
  result : Except Fault Lifted
  /-- The block with the new code. -/
  block : Block
  /-- The statements of an instruction that was accepted. -/
  accepted : Array Stmt := #[]
  /-- Disassembly lines. -/
  listing : Array String := #[]
  log : Array LogLine := #[]
  deriving Inhabited

namespace Guest

/-- The configurations that are supported. -/
def check (g : Guest) : Except Fault Unit := do
  if !g.arch.is64 && g.info.order == .little then throw .littleEndian32
  if g.layout ≠ g.arch then throw (.layoutArch g.layout g.arch)
  let foreign := g.info.caps.foreign g.arch
  if foreign ≠ .empty then throw (.foreignCaps foreign g.arch)
  if let some (setting, size) := g.info.badLineSize? then throw (.lineSize setting size.toNat)

/-- What the instruction at an address depends on. -/
def env (g : Guest) (cia blockStart : BitVec 64) : Env where
  arch := g.arch
  host := g.host
  cia := cia
  blockStart := blockStart
  features := .resolve g.arch g.info.caps
  info := g.info
  abi := g.abi
  layout := g.layout
  mayResteer := g.mayResteer

/-- The code at a position, the bytes it takes, and the request that it is. -/
def body (g : Guest) (w : Insn) : Announced → Lift (Nat × Option Hook)
  | .hook h => do
      let env ← read
      Lift.onStage fun s => .ok (s.mark env.cia Hook.length 0)
      Lift.serve h g.injector
      return (Hook.length, some h)
  | .unknown request => Lift.unrecognized request "magic sequence request"
  | .absent => do
      let env ← read
      Lift.onStage fun s => .ok (s.mark env.cia 4 0)
      Lift.instruction w
      return (4, none)

/-- The report on a refused word. -/
def refusalLine (g : Guest) (cia : BitVec 64) (w : Insn) (r : Refusal) : LogLine :=
  let here := Text.hex cia.toNat
  let word := "0x" ++ Text.hexWord w.raw.toNat
  let family := match w.family? with
    | some f => f.name
    | none => "none"
  if g.warnRefused then
    let details := s!"(opc1 {w.opcode}, xo10 {w.xo10}, family {family})"
    ⟨.warn, s!"{here}: cannot decode {word} {details}: {r.message}"⟩
  else ⟨.debug, s!"{here}: no decode for {word} ({family}): {r.message}"⟩

/-- The block behind a refused word: the word's address is written. -/
def stopHere (env : Env) (block : Block) : Except Fault Block := do
  let slot := SpecialSlot.cia
  let s ← (Stage.start block).put (Layout.specialOffset env.layout slot) (slot.ty env.layout)
    (env.imm env.cia)
  s.commit block

/-- Lifts the code at `offset`, which the guest has at address `cia`, onto a block that starts at
`blockStart`. -/
def lift (g : Guest) (code : ByteArray) (offset : Nat) (cia blockStart : BitVec 64)
    (block : Block) : Report :=
  match g.check with
  | .error f => { result := .error f, block }
  | .ok () =>
    match Insn.fetch? code offset g.info.order with
    | none => { result := .error (.noWord offset), block }
    | some w =>
      let env := g.env cia blockStart
      let fresh : Progress := { stage := .start block }
      let (outcome, p) := Lift.exec env fresh (g.body w (.scan code offset g.arch g.info.order))
      match outcome with
      | .ok (length, hook) =>
          match p.stage.commit block with
          | .ok block =>
              { result := .ok ⟨length, p.next, hook⟩, block, accepted := p.stage.stmts,
                listing := p.listing, log := p.log }
          | .error f =>
              { result := .error f, block, accepted := p.stage.stmts, listing := p.listing,
                log := p.log }
      | .error (.fault f) => { result := .error f, block, listing := p.listing, log := p.log }
      | .error (.refuse r) =>
          let log := p.log.push (g.refusalLine cia w r)
          match stopHere env block with
          | .ok block =>
              { result := .ok ⟨0, .stop .noDecode, none⟩, block, listing := p.listing, log }
          | .error f => { result := .error f, block, listing := p.listing, log }

end Guest

end PowerLift
