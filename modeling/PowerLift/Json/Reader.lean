import PowerLift.Json.Token

/-!
# Reading structured text

A reader keeps the containers that are open and what may come next, and takes one token at a time.
-/

namespace PowerLift.Json

/-- A container that is not closed yet. Values read so far come last first. -/
inductive Frame where
  | arr (items : List Json)
  /-- An object, with the names and values before the current name; no name where one is garbled. -/
  | obj (fields : Option (List (String × Json))) (name : Option String)
  deriving Repr, Inhabited

/-- What may come next. -/
inductive Expected where
  | value
  | valueOrEnd
  | name
  | nameOrEnd
  | colon
  | commaOrEnd
  /-- Nothing: the value is complete. -/
  | nothing (v : Json)
  deriving Repr, Inhabited

/-- A reader. -/
structure Reader where
  frames : List Frame := []
  expected : Expected := .value
  deriving Repr, Inhabited

namespace Reader

/-- A value is complete. -/
def finish (frames : List Frame) (v : Json) : Reader :=
  match frames with
  | [] => ⟨[], .nothing v⟩
  | .arr items :: rest => ⟨.arr (v :: items) :: rest, .commaOrEnd⟩
  | .obj fields name :: rest =>
      let fields := do return (← name, v) :: (← fields)
      ⟨.obj fields none :: rest, .commaOrEnd⟩

/-- The value of an object whose fields are complete. -/
def object : Option (List (String × Json)) → Json
  | some fields => .obj fields.reverse
  | none => .garbled

/-- A value starts. -/
def start (frames : List Frame) : Token → Option Reader
  | .openArr => some ⟨.arr [] :: frames, .valueOrEnd⟩
  | .openObj => some ⟨.obj (some []) none :: frames, .nameOrEnd⟩
  | .null => some (finish frames .null)
  | .bool b => some (finish frames (.bool b))
  | .nat n => some (finish frames (.nat n))
  | .real n => some (finish frames (.real n))
  | .str (some s) => some (finish frames (.str s))
  | .str none => some (finish frames .garbled)
  | _ => none

/-- Takes one token. -/
def step (r : Reader) (t : Token) : Option Reader :=
  match r.expected, r.frames, t with
  | .value, frames, t => start frames t
  | .valueOrEnd, .arr _ :: rest, .closeArr => some (finish rest (.arr []))
  | .valueOrEnd, frames, t => start frames t
  | .nameOrEnd, .obj _ _ :: rest, .closeObj => some (finish rest (.obj []))
  | .nameOrEnd, .obj fields _ :: rest, .str s => some ⟨.obj fields s :: rest, .colon⟩
  | .name, .obj fields _ :: rest, .str s => some ⟨.obj fields s :: rest, .colon⟩
  | .colon, frames, .colon => some ⟨frames, .value⟩
  | .commaOrEnd, .arr items :: rest, .comma => some ⟨.arr items :: rest, .value⟩
  | .commaOrEnd, .arr items :: rest, .closeArr => some (finish rest (.arr items.reverse))
  | .commaOrEnd, .obj fields s :: rest, .comma => some ⟨.obj fields s :: rest, .name⟩
  | .commaOrEnd, .obj fields _ :: rest, .closeObj => some (finish rest (object fields))
  | _, _, _ => none

/-- The value that has been read, if it is complete. -/
def result? (r : Reader) : Option Json :=
  match r.expected with
  | .nothing v => some v
  | _ => none

end Reader

/-- The value that tokens stand for. -/
def ofTokens? (ts : List Token) : Option Json := do
  (← ts.foldlM Reader.step {}).result?

/-- The value that a text stands for. -/
def parse? (s : String) : Option Json := do
  ofTokens? (← Token.scan s.toList)

end PowerLift.Json
