import PowerLift.Command.Usage

/-!
# Arguments

Arguments are read from left to right, and the first that is wrong decides; options that exclude
each other are looked at last. An option that gets its value from the next argument is taken when
the argument behind that comes, so an argument that nothing knows is refused before a value that
is wrong.
-/

namespace PowerLift

/-- The form of an argument. -/
inductive Argument where
  /-- Two dashes. No argument behind them is an option. -/
  | divider
  /-- The name of an option, and the value behind an equals sign. -/
  | named (name : String) (value : Option String)
  /-- Letters of options behind a dash. -/
  | letters (cs : List Char)
  | plain (text : String)
  deriving DecidableEq, Repr, Inhabited

namespace Argument

def ofText (text : String) : Argument :=
  match text.toList with
  | ['-', '-'] => divider
  | '-' :: '-' :: rest =>
      let name := String.ofList (rest.takeWhile (· ≠ '='))
      match rest.dropWhile (· ≠ '=') with
      | [] => named name none
      | _ :: value => named name (some (String.ofList value))
  | '-' :: c :: rest => letters (c :: rest)
  | _ => plain text

end Argument

/-- The arguments read so far. -/
structure Arguments where
  file : Option String := none
  given : List CommandOption := []
  base : BitVec 64 := 0
  entry : Option (BitVec 64) := none
  symbol : Option String := none
  addr : Option (BitVec 64) := none
  chosen : Overrides := {}
  limits : Limits := {}
  json : Bool := false
  deriving DecidableEq, Repr, Inhabited

namespace Arguments

/-- An address as the value of an option. -/
def address (o : CommandOption) (text : String) : Except UsageError (BitVec 64) :=
  (Address.parse text).mapError (.badAddress o)

/-- A name as the value of an option. -/
def choice {α : Type} (o : CommandOption) (ofName? : String → Option α) (text : String) :
    Except UsageError α :=
  if text = "" then .error (.noValue o)
  else match ofName? text with
    | some v => .ok v
    | none => .error (.badName o text)

/-- A number of 64 bits as the value of an option. -/
def count (o : CommandOption) (text : String) : Except UsageError Nat :=
  (Numeral.unsigned 10 (UInt64.size - 1) text.toList).mapError (.badNumber o text)

/-- A number of 32 bits as the value of an option. -/
def smallCount (o : CommandOption) (text : String) : Except UsageError Nat := do
  let bound : Nat := UInt32.size - 1
  let value ← (Numeral.signed 10 (UInt64.size / 2 - 1) text.toList).mapError (.badNumber o text)
  if 0 ≤ value ∧ value ≤ bound then return value.toNat
  else throw (.outOfRange o text value bound)

/-- Takes an option with its value; the value of an option that has none is empty. -/
def take (scope : Option CommandName) (a : Arguments) (o : CommandOption) (text : String) :
    Except UsageError Arguments := do
  if a.given.contains o then throw (.repeated o)
  let a := { a with given := a.given ++ [o] }
  match o with
  | .base => return { a with base := ← address o text }
  | .entry => return { a with entry := some (← address o text) }
  | .symbol => return { a with symbol := some text }
  | .addr => return { a with addr := some (← address o text) }
  | .arch => return { a with chosen.arch := some (← choice o Arch.ofName? text) }
  | .endian => return { a with chosen.order := some (← choice o ByteOrder.ofName? text) }
  | .config =>
      if text = "" then throw (.noValue o)
      return { a with chosen.settings := some text }
  | .maxBlocks => return { a with limits.maxBlocks := ← count o text }
  | .maxInsns => return { a with limits.maxInsns := ← smallCount o text }
  | .sigillDiag => return { a with chosen.warnRefused := true }
  | .json => return { a with json := true }
  | .verbose => return a
  | .help => throw (.help scope)
  | .version => throw .version

end Arguments

/-- A value that is not taken yet. -/
inductive Waiting where
  | file (path : String)
  | option (o : CommandOption) (value : Option String)
  deriving DecidableEq, Repr, Inhabited

/-- Where the reading of arguments stands. -/
structure Reading where
  taken : Arguments := {}
  waiting : Option Waiting := none
  /-- Whether two dashes have been passed. -/
  divided : Bool := false
  deriving DecidableEq, Repr, Inhabited

namespace Reading

/-- Takes the value that waits. -/
def settle (scope : Option CommandName) (r : Reading) : Except UsageError Reading := do
  let taken ← match r.waiting with
    | none => pure r.taken
    | some (.file path) =>
        if path = "" then throw .emptyFile else pure { r.taken with file := some path }
    | some (.option o none) => throw (.noValue o)
    | some (.option o (some text)) => r.taken.take scope o text
  return { r with taken, waiting := none }

/-- Takes an option with its value. -/
def take (scope : Option CommandName) (r : Reading) (o : CommandOption) (text : String) :
    Except UsageError Reading := do
  let r ← r.settle scope
  return { r with taken := ← r.taken.take scope o text }

/-- Reads an option by its name. -/
def readNamed (scope : Option CommandName) (r : Reading) (name : String) (value : Option String) :
    Except UsageError Reading := do
  let some o := CommandOption.ofName? scope name | throw (.unexpected s!"--{name}")
  match o.isFlag, value with
  | true, none => r.take scope o ""
  | true, some text => throw (.unexpectedValue o text)
  | false, some text => r.take scope o text
  | false, none => return { ← r.settle scope with waiting := some (.option o none) }

/-- Reads options by their letters. -/
def readLetters (scope : Option CommandName) (r : Reading) :
    List Char → Except UsageError Reading
  | [] => .ok r
  | c :: cs =>
      match CommandOption.ofLetter? scope c with
      | none => .error (.unexpected (String.ofList ['-', c]))
      | some o => do readLetters scope (← r.take scope o "") cs

/-- Reads a file, the only argument of a command that is no option. -/
def readFile (command : CommandName) (r : Reading) (path : String) : Except UsageError Reading := do
  match r.taken.file, r.waiting with
  | some _, _ | _, some (.file _) => throw (.unexpected path)
  | none, _ => return { ← r.settle (some command) with waiting := some (.file path) }

/-- Reads an argument behind the name of a command. -/
def readArgument (command : CommandName) (r : Reading) (text : String) :
    Except UsageError Reading :=
  if r.divided then r.readFile command text
  else match Argument.ofText text with
    | .divider => .ok { r with divided := true }
    | .named name value => r.readNamed (some command) name value
    | .letters cs => r.readLetters (some command) cs
    | .plain text =>
        match r.waiting with
        | some (.option o none) => .ok { r with waiting := some (.option o (some text)) }
        | _ => r.readFile command text

end Reading

namespace Arguments

/-- Reads the arguments behind the name of a command. -/
def read (command : CommandName) (texts : List String) : Except UsageError Arguments := do
  let r ← texts.foldlM (Reading.readArgument command) {}
  return (← r.settle (some command)).taken

/-- The command that arguments amount to. -/
def command (a : Arguments) (name : CommandName) : Except UsageError Command := do
  match a.given.filter fun o => o = .symbol ∨ o = .addr with
  | [one, other] => throw (.conflict one other)
  | _ => pure ()
  let some file := a.file | throw .noFile
  match name with
  | .blocks => return .blocks file a.base a.entry a.chosen a.limits
  | .elf =>
      let start : Elf.Start := match a.symbol, a.addr with
        | some name, _ => .symbol name
        | none, some addr => .addr addr
        | none, none => .entry
      return .elf file start a.chosen a.limits
  | .scan => return .scan file a.base a.chosen a.json

end Arguments

/-- A command that is asked for, and whether diagnostics of every kind are to be shown. -/
structure Invocation where
  command : Command
  verbose : Bool := false
  deriving DecidableEq, Repr, Inhabited

namespace Invocation

/-- The answer to a call for help with a command. -/
def help : List String → UsageError
  | [] => .help none
  | name :: rest =>
      match CommandName.ofName? name, rest with
      | none, _ => .unknownCommand name
      | some c, [] => .help (some c)
      | some _, name :: _ => .unknownCommand name

/-- Reads the arguments in front of the name of a command, then those behind it. -/
def parseFrom (r : Reading) : List String → Except UsageError Invocation
  | [] => .error (if r.taken.given = [] then .help none else .noCommand)
  | text :: rest =>
      let command := CommandName.ofName? text
      if r.divided then
        let isName := command.isSome || text == "help"
        .error (if isName then .unexpected text else .unknownCommand text)
      else if text = "help" then .error (help rest)
      else match command, Argument.ofText text with
        | some c, _ => do
            let a ← Arguments.read c rest
            let verbose := r.taken.given.contains .verbose || a.given.contains .verbose
            return ⟨← a.command c, verbose⟩
        | none, .divider => parseFrom { r with divided := true } rest
        | none, .named name value => do parseFrom (← r.readNamed none name value) rest
        | none, .letters cs => do parseFrom (← r.readLetters none cs) rest
        | none, .plain text => .error (.unknownCommand text)

/-- Reads the arguments of the command line. -/
def parse (texts : List String) : Except UsageError Invocation := parseFrom {} texts

end Invocation

end PowerLift
