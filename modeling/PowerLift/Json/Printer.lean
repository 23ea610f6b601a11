import PowerLift.Json
import PowerLift.Text.Hex

/-!
# Writing structured text

Values are written over several lines, two blanks deeper for each container. Empty containers stay
on one line.
-/

namespace PowerLift.Json

/-- The written form of a character within a string. -/
def quotedChar (c : Char) : String :=
  match c with
  | '"' => "\\\""
  | '\\' => "\\\\"
  | '\x08' => "\\b"
  | '\x0c' => "\\f"
  | '\n' => "\\n"
  | '\r' => "\\r"
  | '\t' => "\\t"
  | c => if c < ' ' then "\\u" ++ Text.padLeft '0' 4 (Text.hexDigits c.toNat) else c.toString

/-- A string in quotes. -/
def quoted (s : String) : String := "\"" ++ String.join (s.toList.map quotedChar) ++ "\""

/-- Line breaks and blanks in front of a line. -/
def newline (depth : Nat) : String := "\n" ++ String.ofList (List.replicate (2 * depth) ' ')

mutual

/-- The written form of a value within `depth` containers. -/
def write (depth : Nat) : Json → String
  | null | garbled => "null"
  | bool b => if b then "true" else "false"
  | nat n => toString n
  | real n => (if n.negative then "-" else "") ++ s!"{n.significand}e{n.exponent}"
  | str s => quoted s
  | arr [] => "[]"
  | arr (v :: vs) =>
      "[" ++ newline (depth + 1) ++ write (depth + 1) v ++ writeItems (depth + 1) vs ++
        newline depth ++ "]"
  | obj [] => "\x7b\x7d"
  | obj ((name, v) :: fields) =>
      "\x7b" ++ newline (depth + 1) ++ quoted name ++ ": " ++ write (depth + 1) v ++
        writeFields (depth + 1) fields ++ newline depth ++ "\x7d"

/-- The items behind the first. -/
def writeItems (depth : Nat) : List Json → String
  | [] => ""
  | v :: vs => "," ++ newline depth ++ write depth v ++ writeItems depth vs

/-- The fields behind the first. -/
def writeFields (depth : Nat) : List (String × Json) → String
  | [] => ""
  | (name, v) :: fields =>
      "," ++ newline depth ++ quoted name ++ ": " ++ write depth v ++ writeFields depth fields

end

/-- The written form of a value. -/
def pretty (v : Json) : String := write 0 v

end PowerLift.Json
