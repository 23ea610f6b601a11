import PowerLift.Block

/-!
# Listings

The written form of expressions, statements and blocks. Calls without effects show the address of
their helper. Where a helper lives is the host's affair: a listing takes the addresses, and has zero
for each where it is given none.
-/

namespace PowerLift

/-- The text between an opening and a closing brace. -/
def Text.braced (s : String) : String := "\x7b" ++ s ++ "\x7d"

namespace Const

/-- The listing of a literal. -/
def render : Const → String
  | u1 b => (if b then "1" else "0") ++ ":I1"
  | u8 v => Text.hex v.toNat ++ ":I8"
  | u16 v => Text.hex v.toNat ++ ":I16"
  | u32 v => Text.hex v.toNat ++ ":I32"
  | u64 v => Text.hex v.toNat ++ ":I64"
  | f32 v => "F32" ++ Text.braced (Text.hex v.toNat)
  | f64 v => "F64" ++ Text.braced (Text.hex v.toNat)
  | v128 v => "V128" ++ Text.braced (Text.hexAtLeast 4 v.toNat)

end Const

/-- The listing of a temporary. -/
def Text.temp (t : Nat) : String := s!"t{t}"

/-- The addresses of the helpers where no host places them. -/
def Helper.unplaced : Helper → BitVec 64 := fun _ => 0

namespace Expr

mutual

/-- The listing of an expression. -/
def render (e : Expr) (address : Helper → BitVec 64 := Helper.unplaced) : String :=
  match e with
  | .get offset ty => s!"GET:{ty.name}({offset})"
  | .tmp t => Text.temp t
  | .const c => c.render
  | .apply op args => s!"{op.name}(" ++ Text.separated "," (renderAll args address) ++ ")"
  | .load order ty addr => s!"LD{order.tag}:{ty.name}(" ++ render addr address ++ ")"
  | .ite cond yes no =>
      "ITE(" ++ render cond address ++ "," ++ render yes address ++ "," ++ render no address ++ ")"
  | .call helper ret args =>
      helper.symbol ++ Text.braced (Text.hex (address helper).toNat) ++ "(" ++
        Text.separated "," (renderAll args address) ++ s!"):{ret.name}"

/-- The listings of several expressions. -/
def renderAll (es : List Expr) (address : Helper → BitVec 64) : List String :=
  match es with
  | [] => []
  | e :: es => render e address :: renderAll es address

end

end Expr

namespace EffectCall

/-- The listing of a call with effects. -/
def render (c : EffectCall) (address : Helper → BitVec 64) : String :=
  let memory := match c.memory with
    | some m => s!"{m.access.tag}-mem({m.addr.render address},{m.size}) "
    | none => ""
  let state := c.state.map fun s => s!"{s.access.tag}-gst({s.offset},{s.size}) "
  let result := match c.result with
    | some t => s!" {Text.temp t} ="
    | none => ""
  "DIRTY " ++ c.guard.render address ++ " " ++ memory ++ String.join state ++ ":::" ++ result ++
    s!" {c.helper.symbol}(" ++ Text.separated "," (Expr.renderAll c.args address) ++ ")"

end EffectCall

namespace Stmt

/-- The listing of a statement. -/
def render (s : Stmt) (address : Helper → BitVec 64 := Helper.unplaced) : String :=
  let text (e : Expr) : String := e.render address
  match s with
  | .mark addr len delta => s!"------ IMark({Text.hex addr.toNat}, {len}, {delta}) ------"
  | .bind t value => s!"{Text.temp t} = {text value}"
  | .put offset value => s!"PUT({offset}) = {text value}"
  | .store order addr value => s!"ST{order.tag}({text addr}) = {text value}"
  | .exit guard kind target ipOffset =>
      s!"if ({text guard}) " ++
        Text.braced s!" PUT({ipOffset}) = {target.render}; exit-{kind.name} "
  | .loadLinked order t addr => s!"{Text.temp t} = LD{order.tag}-Linked({text addr})"
  | .storeConditional order t addr value =>
      s!"{Text.temp t} = ( ST{order.tag}-Cond({text addr}) = {text value} )"
  | .fence => "IR-MBusEvent-Fence"
  | .call c => c.render address
  | .hint base len next => s!"====== AbiHint({text base}, {len}, {text next}) ======"

end Stmt

namespace Block

/-- The lines that list the temporaries, eight to a line from temporary `first` on. -/
def renderTypes (first : Nat) (types : List Ty) : List String :=
  match types with
  | [] => []
  | ty :: rest =>
      let shown := ty :: rest.take 7
      let line := shown.zipIdx.map fun (ty, i) => s!"{Text.temp (first + i)}:{ty.name} "
      ("   " ++ String.join line) :: renderTypes (first + 8) (rest.drop 7)
termination_by types.length
decreasing_by
  rw [List.length_cons, List.length_drop]
  exact Nat.lt_succ_of_le (Nat.sub_le _ _)

/-- The lines of a block. -/
def render (b : Block) (address : Helper → BitVec 64 := Helper.unplaced) : List String :=
  let last := match b.next with
    | some next => s!"   PUT({b.ipOffset}) = {next.render address}; exit-{b.kind.name}"
    | none => "   (no next)"
  ["IRSB \x7b"] ++ renderTypes 0 b.types.toList ++ [""] ++
    b.stmts.toList.map (fun s => "   " ++ s.render address) ++ [last, "\x7d"]

end Block

end PowerLift
