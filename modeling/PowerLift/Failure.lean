import PowerLift.Settings

/-!
# Failures of a command

A command fails for a file that it cannot read, settings that are refused, an executable that does
not fit, or a place to start that is not in the image. A fault of the lifter is a failure too.
-/

namespace PowerLift

/-- Why a command fails. -/
inductive Failure where
  | unreadableImage (path : String)
  | unreadableElf (path : String)
  | unreadableSettings (path : String)
  | malformedSettings (path : String)
  | settings (e : SettingsError)
  | malformedElf
  | machine (number : Nat)
  | noSymbol (name : String)
  | truncatedDescriptor (addr : BitVec 64)
  | notExecutable (addr : BitVec 64)
  | noFileData
  | beyondFile
  | entryOutside (entry base finish : BitVec 64)
  | entryUnaligned (entry : BitVec 64)
  | fault (f : Fault)
  deriving DecidableEq, Repr, Inhabited

namespace Failure

/-- The wording of a failure. -/
def message : Failure → String
  | unreadableImage path => s!"Failed to read image: {path}"
  | unreadableElf path => s!"Failed to read ELF file: {path}"
  | unreadableSettings path => s!"Failed to read config file: {path}"
  | malformedSettings path => s!"Failed to parse config file: {path}"
  | settings e => e.message
  | malformedElf => "Failed to parse ELF file"
  | machine number => s!"not a PowerPC ELF file (e_machine = {number})"
  | noSymbol name => s!"symbol not found: {name}"
  | truncatedDescriptor addr => s!"truncated .opd entry at {Text.hex addr.toNat}"
  | notExecutable addr => s!"{Text.hex addr.toNat} is not inside an executable section"
  | noFileData => "executable section has no file data"
  | beyondFile => "executable section extends past the end of the file"
  | entryOutside entry base finish =>
      let range := s!"[{Text.hex base.toNat}, {Text.hex finish.toNat})"
      s!"entry {Text.hex entry.toNat} is outside the image {range}"
  | entryUnaligned entry => s!"entry {Text.hex entry.toNat} is not word aligned"
  | fault f => f.message

end Failure

namespace Settings

/-- The settings in a file, given the file's bytes if it can be read. -/
def load (path : String) (file : Option ByteArray) : Except Failure Settings :=
  match file.bind String.fromUTF8? with
  | none => .error (.unreadableSettings path)
  | some text => match (Json.parse? text).bind ofJson? with
    | none => .error (.malformedSettings path)
    | some s => .ok s

end Settings

end PowerLift
