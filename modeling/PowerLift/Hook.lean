import PowerLift.Route

/-!
# Requests of the guest to its environment

Four rotations that change nothing, followed by a disjunction of a register with itself, are a
request. Ordinary code has no reason to contain the sequence, so it is recognised word by word
before decoding.
-/

namespace PowerLift

/-- A request of the guest to its execution environment. -/
inductive Hook where
  /-- Ends the block for the environment to serve the client. -/
  | clientRequest
  /-- Reads the address before redirection into register 3. -/
  | redirectedAddress
  /-- Calls the address in register 11 without redirection. -/
  | callUnredirected
  /-- Reads the table pointer before redirection into register 3; 64-bit processors only. -/
  | redirectedTable
  /-- Lets the environment add code of its own. -/
  | inject
  deriving DecidableEq, Repr, Inhabited

namespace Hook

/-- The written name of a request. -/
def name : Hook → String
  | clientRequest => "ClientRequest"
  | redirectedAddress => "GuestNrAddr"
  | callUnredirected => "CallNoRedirR11"
  | redirectedTable => "GuestNrAddrGpr2"
  | inject => "InjectIr"

/-- The length of a request in bytes. -/
def length : Nat := 20

/-- The four words that announce a request. -/
def preamble : Arch → List (BitVec 32)
  | .ppc32 => [0x5400183E, 0x5400683E, 0x5400E83E, 0x5400983E]
  | .ppc64 => [0x78001800, 0x78006800, 0x7800E802, 0x78009802]

/-- The request that the fifth word stands for. -/
def ofWord? (arch : Arch) (w : BitVec 32) : Option Hook :=
  if w = 0x7C210B78 then some clientRequest
  else if w = 0x7C421378 then some redirectedAddress
  else if w = 0x7C631B78 then some callUnredirected
  else if w = 0x7C842378 ∧ arch.is64 then some redirectedTable
  else if w = 0x7CA52B78 then some inject
  else none

end Hook

/-- What stands at a code position. -/
inductive Announced where
  /-- No request. -/
  | absent
  | hook (h : Hook)
  /-- The announcement, followed by a word that is no request. -/
  | unknown (request : Insn)
  deriving DecidableEq, Repr, Inhabited

namespace Announced

/-- The written form. -/
def describe : Announced → String
  | absent => "Absent"
  | hook h => s!"Hook({h.name})"
  | unknown w => s!"Unknown(InsnWord({w.raw.toNat}))"

/-- Whether the words from `offset` on are those given. -/
def startsWith (code : ByteArray) (offset : Nat) (order : ByteOrder) : List (BitVec 32) → Bool
  | [] => true
  | w :: rest =>
      Insn.fetch? code offset order == some ⟨w⟩ && startsWith code (offset + 4) order rest

/-- What stands at `offset`. -/
def scan (code : ByteArray) (offset : Nat) (arch : Arch) (order : ByteOrder) : Announced :=
  if startsWith code offset order (Hook.preamble arch) then
    match Insn.fetch? code (offset + 16) order with
    | none => absent
    | some w => match Hook.ofWord? arch w.raw with
      | some h => hook h
      | none => unknown w
  else absent

end Announced

/-- Code that the environment adds at a request; the byte order is that of its memory accesses. -/
abbrev Injector := ByteOrder → Stage → Except Fault Stage

namespace Lift

/-- The code of a request. -/
def serve (h : Hook) (injector : Option Injector) : Lift Unit := do
  let env ← read
  let next ← imm (env.cutAddress (env.cia + BitVec.ofNat 64 Hook.length))
  let here := Text.hex env.cia.toNat
  match h with
  | .clientRequest =>
      logged .debug s!"{here}: client request"
      jumpTo next .clientReq
  | .redirectedAddress => putGpr 3 (← getSlot SpecialSlot.nrAddr)
  | .callUnredirected =>
      putSlot SpecialSlot.lr next
      jumpTo (← getGpr 11) .noRedir
  | .redirectedTable => putGpr 3 (← getSlot SpecialSlot.nrAddrGpr2)
  | .inject =>
      match injector with
      | some add => onStage (add env.host)
      | none => logged .debug s!"{here}: IR injection requested without an injector"
      putSlot SpecialSlot.cmStart (← imm env.cia)
      putSlot SpecialSlot.cmLen (← imm (.ofNat 64 Hook.length))
      jumpTo next .invalICache

end Lift

end PowerLift
