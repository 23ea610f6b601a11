import PowerLift.Command.Basic
import PowerLift.Text.Terminal

/-!
# Usage messages

Arguments that name no command to run are answered with a message for the terminal, in which what
the user wrote is coloured. Its first line, without colours, is what a caller is told.
-/

namespace PowerLift

/-- Why arguments name no command to run. -/
inductive UsageError where
  /-- A call for help, with a command or in general. -/
  | help (command : Option CommandName)
  | version
  | noCommand
  | noFile
  | emptyFile
  | unknownCommand (name : String)
  | unexpected (argument : String)
  | noValue (o : CommandOption)
  /-- A value for an option that takes none. -/
  | unexpectedValue (o : CommandOption) (value : String)
  | badAddress (o : CommandOption) (e : AddressError)
  | badNumber (o : CommandOption) (text : String) (cause : NumeralError)
  /-- A number that is one, but not in the range of the option. -/
  | outOfRange (o : CommandOption) (text : String) (value : Int) (bound : Nat)
  /-- A text that is none of an option's names. -/
  | badName (o : CommandOption) (text : String)
  | repeated (o : CommandOption)
  /-- Two options that exclude each other. -/
  | conflict (one other : CommandOption)
  deriving DecidableEq, Repr, Inhabited

namespace UsageError

/-- Whether the message is what the user asked for. -/
def isAnswer : UsageError → Bool
  | help _ | version => true
  | _ => false

/-- A value that an option refuses. -/
def invalid (o : CommandOption) (text : String) : String :=
  s!"error: invalid value '{Text.marked text}' for '{o.usage}'"

/-- The wording up to the advice. -/
def wording : UsageError → String
  | help none => "PowerPC instruction decoder and IR dumper"
  | help (some c) => c.summary
  | version => "ppcir 0.0.1"
  | noCommand => "error: 'ppcir' requires a subcommand but one was not provided"
  | noFile => "error: the following required arguments were not provided:"
  | emptyFile => "error: a value is required for '<FILE>' but none was supplied"
  | unknownCommand name => s!"error: unrecognized subcommand '{Text.marked name}'"
  | unexpected argument => s!"error: unexpected argument '{Text.marked argument}' found"
  | noValue o => s!"error: a value is required for '{o.usage}' but none was supplied"
  | unexpectedValue o value =>
      let found := s!"error: unexpected value '{Text.marked value}' for '{o.usage}' found"
      s!"{found}; no more were expected"
  | badAddress o e => s!"{invalid o e.text}: {e.message}"
  | badNumber o text cause => s!"{invalid o text}: {cause.message}"
  | outOfRange o text value bound => s!"{invalid o text}: {value} is not in 0..={bound}"
  | badName o text => invalid o text
  | repeated o => s!"error: the argument '{o.usage}' cannot be used multiple times"
  | conflict one other => s!"error: the argument '{one.usage}' cannot be used with '{other.usage}'"

/-- The advice that ends a message. -/
def advice : String := "\n\nFor more information, try '\x1b[1m--help\x1b[0m'.\n"

/-- The first line of the message, without colours. A control sequence that the user wrote may reach
into the advice. -/
def message (e : UsageError) : String := Text.firstLine (Text.seen (e.wording ++ advice))

end UsageError

end PowerLift
