import PowerLift.Elf
import PowerLift.Walk

/-!
# Commands and their options

A command is named by one argument and told its file and options by those behind it.
-/

namespace PowerLift

/-- Options that override the settings. -/
structure Overrides where
  /-- The path of a settings file. -/
  settings : Option String := none
  arch : Option Arch := none
  order : Option ByteOrder := none
  /-- Whether refused words are reported as warnings. -/
  warnRefused : Bool := false
  deriving DecidableEq, Repr, Inhabited

/-- A command. -/
inductive Command where
  /-- Prints the blocks of a raw image. -/
  | blocks (file : String) (base : BitVec 64) (entry : Option (BitVec 64)) (chosen : Overrides)
      (limits : Limits)
  /-- Prints the blocks of an executable file. -/
  | elf (file : String) (start : Elf.Start) (chosen : Overrides) (limits : Limits)
  /-- Counts the words of a raw image. -/
  | scan (file : String) (base : BitVec 64) (chosen : Overrides) (json : Bool)
  deriving DecidableEq, Repr, Inhabited

/-- The names of the commands. -/
inductive CommandName where
  | blocks | elf | scan
  deriving DecidableEq, Repr, Inhabited

namespace CommandName

def ofName? : String → Option CommandName
  | "translate" => some blocks
  | "elf" => some elf
  | "scan" => some scan
  | _ => none

/-- What a command does, in a line. -/
def summary : CommandName → String
  | blocks => "Decode blocks from a raw code image and print their IR"
  | elf => "Decode blocks from a PowerPC ELF file and print their IR"
  | scan => "Decode every aligned word of a raw image and report statistics"

end CommandName

/-- The options of the command line. -/
inductive CommandOption where
  | base | entry | symbol | addr | arch | endian | config | maxBlocks | maxInsns | sigillDiag | json
  | verbose | help | version
  deriving DecidableEq, Repr, Inhabited

namespace CommandOption

def all : List CommandOption :=
  [base, entry, symbol, addr, arch, endian, config, maxBlocks, maxInsns, sigillDiag, json, verbose,
    help, version]

/-- The name of an option behind its two dashes. -/
def name : CommandOption → String
  | base => "base"
  | entry => "entry"
  | symbol => "symbol"
  | addr => "addr"
  | arch => "arch"
  | endian => "endian"
  | config => "config"
  | maxBlocks => "max-blocks"
  | maxInsns => "max-insns"
  | sigillDiag => "sigill-diag"
  | json => "json"
  | verbose => "verbose"
  | help => "help"
  | version => "version"

/-- The letter of an option behind a single dash. -/
def letter? : CommandOption → Option Char
  | verbose => some 'v'
  | help => some 'h'
  | version => some 'V'
  | _ => none

/-- Whether an option takes no value. -/
def isFlag : CommandOption → Bool
  | sigillDiag | json | verbose | help | version => true
  | _ => false

/-- The option with its placeholder, as messages show it. -/
def usage (o : CommandOption) : String :=
  let placeholder := o.name.map fun c => if c = '-' then '_' else c.toUpper
  if o.isFlag then s!"--{o.name}" else s!"--{o.name} <{placeholder}>"

/-- Whether a command has an option; nothing stands for the place in front of the command. -/
def fits : CommandOption → Option CommandName → Bool
  | verbose, _ | help, _ => true
  | version, scope => scope.isNone
  | _, none => false
  | arch, _ | endian, _ | config, _ | sigillDiag, _ => true
  | base, some c => c != .elf
  | entry, some c => c == .blocks
  | symbol, some c | addr, some c => c == .elf
  | maxBlocks, some c | maxInsns, some c => c != .scan
  | json, some c => c == .scan

/-- The option with a name. -/
def ofName? (scope : Option CommandName) (name : String) : Option CommandOption :=
  all.find? fun o => o.name == name && o.fits scope

/-- The option with a letter. -/
def ofLetter? (scope : Option CommandName) (c : Char) : Option CommandOption :=
  all.find? fun o => o.letter? == some c && o.fits scope

end CommandOption

end PowerLift
