import PowerLift.Command.Arguments
import PowerLift.Scan

/-!
# Running a command

A command reads its files, settles the settings, and prints what it finds.
-/

namespace PowerLift.Command

/-- The files that a command reads. -/
def files : Command → List String
  | blocks file _ _ chosen _ | elf file _ chosen _ | scan file _ chosen _ =>
      file :: chosen.settings.toList

/-- The settings of a command: those of the file, then those that the executable file calls for,
then those that options give. -/
def settings (read : String → Option ByteArray) (chosen : Overrides)
    (target : Option (Arch × ByteOrder)) : Except Failure Settings := do
  let s : Settings ← match chosen.settings with
    | some path => Settings.load path (read path)
    | none => pure {}
  let s := match target with
    | some (arch, order) => { s with arch, order }
    | none => s
  let s := { s with arch := chosen.arch.getD s.arch, order := chosen.order.getD s.order }
  s.check.mapError .settings
  return s

/-- The name of a byte order in messages. -/
def orderLabel : ByteOrder → String
  | .big => "Big"
  | .little => "Little"

/-- Prints the blocks of a raw image. -/
def runBlocks (read : String → Option ByteArray) (file : String) (base : BitVec 64)
    (entry : Option (BitVec 64)) (chosen : Overrides) (limits : Limits) : Session Unit := do
  Session.print s!"Reading image: {file}"
  let some bytes := read file | throw (.unreadableImage file)
  let s ← Session.ofExcept (settings read chosen none)
  let guest := s!"guest {s.arch.label} {orderLabel s.order}-endian"
  Session.log .info s!"{guest}, {bytes.size} bytes at {Text.hex base.toNat}"
  (s.guest chosen.warnRefused).walk ⟨base, bytes⟩ (entry.getD base) limits

/-- Loads the code of an executable file at the start that was asked for: the code, what the file is
for, and the address of the start. -/
def load (exe : Elf) (data : ByteArray) (start : Elf.Start) :
    Session (Image × (Arch × ByteOrder) × BitVec 64) := do
  let arch ← Session.ofExcept exe.arch
  let asked ← Session.ofExcept (exe.startAddress start)
  let addr ← match ← Session.ofExcept (exe.descriptor? data asked) with
    | none => pure asked
    | some code => do
        Session.log .debug s!"resolved function descriptor to {Text.hex code.toNat}"
        pure code
  let code ← Session.ofExcept (exe.executableAt addr)
  let image ← Session.ofExcept (Elf.image data code)
  let name := (exe.sectionNames.get? code.name).getD "?"
  let place := s!"{name} at {Text.hex image.base.toNat}"
  Session.log .info s!"decoding from {place} ({image.bytes.size} bytes)"
  return (image, (arch, exe.format.order), addr)

/-- Prints the blocks of an executable file. -/
def runElf (read : String → Option ByteArray) (file : String) (start : Elf.Start)
    (chosen : Overrides) (limits : Limits) : Session Unit := do
  Session.print s!"Reading ELF file: {file}"
  let some data := read file | throw (.unreadableElf file)
  let some exe := Elf.parse? data | throw .malformedElf
  exe.unnamedLibraries.forM fun name => Session.log .warn s!"Invalid DT_NEEDED {name}"
  if !exe.isSound data then throw .malformedElf
  let (image, (arch, order), addr) ← load exe data start
  let s ← Session.ofExcept (settings read chosen (some (arch, order)))
  Session.print s!"  Machine: {arch.label} ({orderLabel order}-endian)"
  Session.print s!"  Entry: {Text.hexAtLeast 8 addr.toNat}"
  (s.guest chosen.warnRefused).walk image addr limits

/-- Counts the words of a raw image. -/
def runScan (read : String → Option ByteArray) (file : String) (base : BitVec 64)
    (chosen : Overrides) (json : Bool) : Session Unit := do
  let some bytes := read file | throw (.unreadableImage file)
  let s ← Session.ofExcept (settings read chosen none)
  let report ← (s.guest chosen.warnRefused).scan ⟨base, bytes⟩
  if json then (report.toJson.pretty.splitOn "\n").forM Session.print
  else (report.lines file).forM Session.print

/-- Runs a command; `read` gives the bytes of a file that can be read. -/
def run (read : String → Option ByteArray) : Command → Session Unit
  | blocks file base entry chosen limits => runBlocks read file base entry chosen limits
  | elf file start chosen limits => runElf read file start chosen limits
  | scan file base chosen json => runScan read file base chosen json

end PowerLift.Command
