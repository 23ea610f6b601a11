import PowerLift.Ty

/-!
# Rules for overflow and carry

Each arithmetic instruction names the rule by which its overflow and carry flags are computed.
-/

namespace PowerLift

/-- The flag rule of an arithmetic instruction. -/
inductive FlagRule where
  | add | addE | subf | subfC | subfE | subfI | neg
  | mulLw | mulLd
  | divW | divWU | divD | divDU
  | divWE | divWEU | divDE | divDEU
  | sraw | srawi | srad | sradi
  deriving DecidableEq, Repr, Inhabited

namespace FlagRule

def all : List FlagRule :=
  [add, addE, subf, subfC, subfE, subfI, neg, mulLw, mulLd, divW, divWU, divD, divDU, divWE, divWEU,
   divDE, divDEU, sraw, srawi, srad, sradi]

/-- The written name of a rule. -/
def name : FlagRule → String
  | add => "Add"
  | addE => "AddE"
  | subf => "Subf"
  | subfC => "SubfC"
  | subfE => "SubfE"
  | subfI => "SubfI"
  | neg => "Neg"
  | mulLw => "MulLw"
  | mulLd => "MulLd"
  | divW => "DivW"
  | divWU => "DivWU"
  | divD => "DivD"
  | divDU => "DivDU"
  | divWE => "DivWE"
  | divWEU => "DivWEU"
  | divDE => "DivDE"
  | divDEU => "DivDEU"
  | sraw => "Sraw"
  | srawi => "Srawi"
  | srad => "Srad"
  | sradi => "Sradi"

/-- The rule that a name denotes. -/
def ofName? (s : String) : Option FlagRule :=
  all.find? (·.name == s)

end FlagRule

end PowerLift
