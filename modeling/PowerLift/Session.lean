import PowerLift.Failure
import PowerLift.Image

/-!
# Sessions

A command prints lines and notes diagnostics until it ends or fails. What it printed before a
failure stays printed.
-/

namespace PowerLift

/-- What a command has put out so far. -/
structure Transcript where
  printed : Array String := #[]
  log : Array LogLine := #[]
  deriving Repr, Inhabited

/-- The run of a command. -/
abbrev Session := ExceptT Failure (StateM Transcript)

namespace Session

/-- Runs a command; its transcript is returned also where it fails. -/
def exec {α : Type} (m : Session α) : Except Failure α × Transcript := ExceptT.run m {}

/-- Prints a line. -/
def print (line : String) : Session Unit :=
  modify fun t => { t with printed := t.printed.push line }

/-- Notes diagnostics. -/
def logAll (lines : Array LogLine) : Session Unit :=
  modify fun t => { t with log := t.log ++ lines }

/-- Notes a diagnostic. -/
def log (severity : Severity) (text : String) : Session Unit := logAll #[⟨severity, text⟩]

/-- Takes over a result. -/
def ofExcept {α : Type} : Except Failure α → Session α
  | .ok a => pure a
  | .error f => throw f

/-- Takes over a result of the lifter. -/
def ofFault {α : Type} : Except Fault α → Session α
  | .ok a => pure a
  | .error f => throw (.fault f)

end Session

end PowerLift
