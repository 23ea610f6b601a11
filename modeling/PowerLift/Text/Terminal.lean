/-!
# Terminal text

Text for a terminal has control sequences in it, which select colours or address the terminal. What
a reader sees of such a text is the printable characters outside the sequences, and line breaks,
tabs and form feeds. Sequences are made of ASCII characters; any other character in one is passed
over, unless a byte of its encoding closes the sequence.
-/

namespace PowerLift.Text

/-- Where in a control sequence the next character stands. -/
inductive TerminalState where
  /-- Outside any sequence. -/
  | ground
  /-- Behind an escape character. -/
  | escape
  /-- In an escape sequence that ends with its first letter or digit. -/
  | intermediate
  /-- Among the parameters of a control sequence. -/
  | parameters
  /-- In a command to the system, which a bell ends. -/
  | command
  /-- At the start of a string for the device. -/
  | device
  /-- Among the parameters of a string for the device. -/
  | deviceParameters
  /-- Between the parameters and the body of a string for the device. -/
  | deviceIntermediate
  /-- In the body of a string. -/
  | body
  deriving DecidableEq, Repr, Inhabited

namespace TerminalState

/-- A control character that moves the print position. -/
def isLayout (c : Char) : Bool := c == '\t' || c == '\n' || c == '\x0c' || c == '\r'

/-- Whether the encoding of a character has the byte that closes the body of a string. -/
def closesBody (c : Char) : Bool := (String.utf8EncodeChar c).contains 0x9C

/-- Whether control characters take effect inside the sequence. -/
def isTransparent : TerminalState → Bool
  | ground | escape | intermediate | parameters => true
  | _ => false

/-- The state behind a character of ASCII that is no control character, or is the delete
character. -/
def next : TerminalState → Char → TerminalState
  | escape, c =>
      if c < '0' then intermediate
      else match c with
        | '[' => parameters
        | ']' => command
        | 'P' => device
        | 'X' | '^' | '_' => body
        | '\x7f' => escape
        | _ => ground
  | intermediate, c => if c < '0' ∨ c = '\x7f' then intermediate else ground
  | parameters, c => if c < '@' ∨ c = '\x7f' then parameters else ground
  | device, c =>
      if c = '\x7f' then device
      else if c < '0' then deviceIntermediate
      else if c < '@' then deviceParameters
      else body
  | deviceParameters, c =>
      if c < '0' then deviceIntermediate
      else if c < '<' ∨ c = '\x7f' then deviceParameters
      else body
  | deviceIntermediate, c => if c < '0' ∨ c = '\x7f' then deviceIntermediate else body
  | s, _ => s

/-- The state behind a character, and whether the character is seen. A line break, tab or form feed
ends a sequence that control characters take effect in. -/
def step (s : TerminalState) (c : Char) : TerminalState × Bool :=
  if c = '\x1b' then (escape, false)
  else if c = '\x18' ∨ c = '\x1a' then (ground, false)
  else if '\x7f' < c then (if s = body ∧ closesBody c then ground else s, s = ground)
  else if c < ' ' then
    if isLayout c ∧ s.isTransparent then (ground, true)
    else (if s = command ∧ c = '\x07' then ground else s, false)
  else (s.next c, s = ground ∧ c ≠ '\x7f')

end TerminalState

/-- The characters of a text that are seen, from a state on. -/
def seenFrom : TerminalState → List Char → List Char
  | _, [] => []
  | s, c :: cs => match s.step c with
    | (s, true) => c :: seenFrom s cs
    | (s, false) => seenFrom s cs

/-- What is seen of a text for a terminal. -/
def seen (text : String) : String := String.ofList (seenFrom .ground text.toList)

/-- A text in the colour of what is wrong. -/
def marked (text : String) : String := s!"\x1b[33m{text}\x1b[0m"

/-- The first line of a text. A carriage return in front of the line feed belongs to the break. -/
def firstLine (text : String) : String :=
  let cs := text.toList
  let line := cs.takeWhile (· ≠ '\n')
  let isBroken := line.length < cs.length
  String.ofList (if isBroken ∧ line.getLast? = some '\r' then line.dropLast else line)

end PowerLift.Text
