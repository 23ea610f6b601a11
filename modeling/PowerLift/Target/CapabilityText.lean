import PowerLift.Target.Processor
import PowerLift.Text.Numeral

/-!
# Reading capability sets

A set is written as names with bars between. A part may also be a flag word in hexadecimal, whose
bits are kept even where no capability has them.
-/

namespace PowerLift.Capabilities

/-- One part of a written set. -/
def part? (cs : List Char) : Option (BitVec 32) :=
  match cs with
  | [] => none
  | '0' :: 'x' :: rest => match Numeral.unsigned 16 (UInt32.size - 1) rest with
    | .ok n => some (.ofNat 32 n)
    | .error _ => none
  | cs => ofName? (String.ofList cs)

/-- The set that a text stands for; a blank text is the empty set. -/
def parse? (s : String) : Option Capabilities :=
  if s.toList.all Text.isBlank then some .empty
  else do
    let bits ← (Text.parts '|' s.toList).mapM fun p => part? (Text.trim p)
    return ⟨bits.foldl (· ||| ·) 0⟩

end PowerLift.Capabilities
