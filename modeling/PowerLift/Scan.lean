import PowerLift.Json.Printer
import PowerLift.Walk

/-!
# Scanning an image

Every aligned word of an image is lifted by itself, and the verdicts are counted: in all, and for
each family.
-/

namespace PowerLift

/-- The words of one family. -/
structure FamilyCount where
  family : Family
  words : Nat
  refused : Nat
  deriving DecidableEq, Repr, Inhabited

/-- The verdicts on the words of an image. -/
structure ScanReport where
  words : Nat := 0
  lifted : Nat := 0
  refused : Nat := 0
  /-- Words that no family owns. -/
  unassigned : Nat := 0
  /-- The families that occur, in the order of their names. -/
  families : List FamilyCount := []
  deriving DecidableEq, Repr, Inhabited

namespace ScanReport

/-- Counts a word of a family. -/
def countFamily (family : Family) (isRefused : Bool) : List FamilyCount → List FamilyCount
  | [] => [⟨family, 1, isRefused.toNat⟩]
  | c :: rest =>
      if c.family = family then
        { c with words := c.words + 1, refused := c.refused + isRefused.toNat } :: rest
      else if family.name < c.family.name then ⟨family, 1, isRefused.toNat⟩ :: c :: rest
      else c :: countFamily family isRefused rest

/-- Counts a word. -/
def count (r : ScanReport) (family : Option Family) (isRefused : Bool) : ScanReport :=
  let r := { r with
    words := r.words + 1
    lifted := r.lifted + (!isRefused).toNat
    refused := r.refused + isRefused.toNat }
  match family with
  | some f => { r with families := countFamily f isRefused r.families }
  | none => { r with unassigned := r.unassigned + 1 }

def toJson (r : ScanReport) : Json :=
  .obj [("words", .nat r.words), ("decoded", .nat r.lifted), ("no_decode", .nat r.refused),
    ("unassigned", .nat r.unassigned),
    ("families", .obj (r.families.map fun c =>
      (c.family.name, .obj [("words", .nat c.words), ("no_decode", .nat c.refused)])))]

/-- Pads a text on the right. -/
def padRight (width : Nat) (s : String) : String :=
  s ++ String.ofList (List.replicate (width - s.length) ' ')

/-- The lines of a report on a file. -/
def lines (r : ScanReport) (path : String) : List String :=
  let padded (n : Nat) : String := Text.padLeft ' ' 8 (toString n)
  [s!"Scanned {r.words} word(s) of {path}", s!"  Decoded: {r.lifted}",
   s!"  No decode: {r.refused}", s!"  Unassigned: {r.unassigned}"] ++
  r.families.map fun c =>
    s!"    {padRight 12 c.family.name} {padded c.words} words, {padded c.refused} rejected"

end ScanReport

namespace Guest

/-- Whether the word at an address of an image is refused when it is lifted by itself. -/
def isRefusedAt (g : Guest) (image : Image) (addr : BitVec 64) : Session Bool :=
  match g.step image addr addr (fun _ => false) g.emptyBlock with
  | none => return true
  | some report => do
      Session.logAll report.log
      return (← Session.ofFault report.result).isRefused

/-- Scans the words from an address on, as long as a whole word of the image stands there. -/
def scanFrom (g : Guest) (image : Image) (addr : BitVec 64) (r : ScanReport) :
    Session ScanReport := do
  let some offset := image.offset? addr | return r
  let some word := Insn.fetch? image.bytes offset g.info.order | return r
  let isRefused ← g.isRefusedAt image addr
  let r := r.count word.family? isRefused
  match _hbehind : Address.add addr 4 with
  | .error f => throw (.fault f)
  | .ok behind => scanFrom g image behind r
termination_by UInt64.size - addr.toNat
decreasing_by
  obtain ⟨hfits, rfl⟩ := Address.add_eq_ok_iff.mp _hbehind
  have hfour : (4 : BitVec 64).toNat = 4 := rfl
  rw [BitVec.toNat_add, Nat.mod_eq_of_lt hfits]
  omega

/-- Scans the words of an image. -/
def scan (g : Guest) (image : Image) : Session ScanReport := g.scanFrom image image.base {}

variable {g : Guest} {image : Image} {addr : BitVec 64} {r : ScanReport}

theorem scanFrom_outside (h : image.offset? addr = none) : g.scanFrom image addr r = pure r := by
  rw [scanFrom, h]

theorem scanFrom_word {offset : Nat} {word : Insn} (hoffset : image.offset? addr = some offset)
    (hfetch : Insn.fetch? image.bytes offset g.info.order = some word) :
    g.scanFrom image addr r = (do
      let isRefused ← g.isRefusedAt image addr
      let behind ← Session.ofFault (Address.add addr 4)
      g.scanFrom image behind (r.count word.family? isRefused)) := by
  rw [scanFrom, hoffset]
  simp only [hfetch]
  congr 1
  funext isRefused
  cases Address.add addr 4 <;> rfl

end Guest

end PowerLift
