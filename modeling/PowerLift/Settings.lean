import PowerLift.Guest
import PowerLift.Json.Reader
import PowerLift.Target.CapabilityText

/-!
# Settings

Descriptions of processors and guests are kept as structured text. Every setting has a default,
settings that are not known are passed over, and one that is given twice is refused.
-/

namespace PowerLift

namespace Json

/-- A setting: its default where it is absent, and nothing where it is malformed or repeated. -/
def setting? {α : Type} (fields : List (String × Json)) (name : String) (read : Json → Option α)
    (default : α) : Option α :=
  match valuesOf name fields with
  | [] => some default
  | [v] => read v
  | _ => none

/-- A setting by its place: its default where the list is too short. -/
def settingAt? {α : Type} (items : List Json) (i : Nat) (read : Json → Option α) (default : α) :
    Option α :=
  match items[i]? with
  | none => some default
  | some v => read v

/-- A number of 32 bits, written with digits alone. -/
def word? : Json → Option (BitVec 32)
  | .nat n => if n < UInt32.size then some (.ofNat 32 n) else none
  | _ => none

def bool? : Json → Option Bool
  | .bool b => some b
  | _ => none

/-- One of several names. A name may also stand as the only field of an object, with no value. -/
def named? {α : Type} (ofName? : String → Option α) : Json → Option α
  | .str s => ofName? s
  | .obj [(s, .null)] => ofName? s
  | _ => none

def caps? : Json → Option Capabilities
  | .str s => Capabilities.parse? s
  | _ => none

/-- A capability set or none. -/
def capsOrNull? : Json → Option (Option Capabilities)
  | .null => some none
  | v => (caps? v).map some

end Json

namespace Processor

/-- Reads a description of a processor: an object, or a list in the order of the fields. -/
def ofJson? : Json → Option Processor
  | .obj fields => do
      let d : Processor := {}
      return {
        caps := ← Json.setting? fields "hwcaps" Json.caps? d.caps
        order := ← Json.setting? fields "endness" (Json.named? ByteOrder.ofName?) d.order
        dcbzSize := ← Json.setting? fields "dcbz_szb" Json.word? d.dcbzSize
        dcbzlSize := ← Json.setting? fields "dcbzl_szb" Json.word? d.dcbzlSize
        icacheLineSize := ← Json.setting? fields "icache_line_szb" Json.word? d.icacheLineSize }
  | .arr items => do
      let d : Processor := {}
      if 5 < items.length then none
      return {
        caps := ← Json.settingAt? items 0 Json.caps? d.caps
        order := ← Json.settingAt? items 1 (Json.named? ByteOrder.ofName?) d.order
        dcbzSize := ← Json.settingAt? items 2 Json.word? d.dcbzSize
        dcbzlSize := ← Json.settingAt? items 3 Json.word? d.dcbzlSize
        icacheLineSize := ← Json.settingAt? items 4 Json.word? d.icacheLineSize }
  | _ => none

def toJson (info : Processor) : Json :=
  .obj [("hwcaps", .str info.caps.text), ("endness", .str info.order.name),
    ("dcbz_szb", .nat info.dcbzSize.toNat), ("dcbzl_szb", .nat info.dcbzlSize.toNat),
    ("icache_line_szb", .nat info.icacheLineSize.toNat)]

end Processor

namespace CallConvention

/-- Reads calling-convention details from the fields of an object. -/
def ofFields? (fields : List (String × Json)) : Option CallConvention := do
  return {
    redzoneSize := ← Json.setting? fields "redzone_size" Json.word? 0
    zapAtReturn := ← Json.setting? fields "zap_redzone_at_blr" Json.bool? false
    hostDescriptors := ← Json.setting? fields "host_calls_use_fndescrs" Json.bool? false }

/-- Reads calling-convention details: an object, or a list in the order of the fields. -/
def ofJson? : Json → Option CallConvention
  | .obj fields => ofFields? fields
  | .arr items => do
      if 3 < items.length then none
      return {
        redzoneSize := ← Json.settingAt? items 0 Json.word? 0
        zapAtReturn := ← Json.settingAt? items 1 Json.bool? false
        hostDescriptors := ← Json.settingAt? items 2 Json.bool? false }
  | _ => none

/-- The fields of an object; the decision per call target is not among them. -/
def toFields (abi : CallConvention) : List (String × Json) :=
  [("redzone_size", .nat abi.redzoneSize.toNat), ("zap_redzone_at_blr", .bool abi.zapAtReturn),
   ("host_calls_use_fndescrs", .bool abi.hostDescriptors)]

def toJson (abi : CallConvention) : Json := .obj abi.toFields

end CallConvention

/-- The settings of a guest. -/
structure Settings where
  arch : Arch := .ppc64
  order : ByteOrder := .big
  /-- Every capability of the variant where absent. -/
  caps : Option Capabilities := none
  dcbzSize : BitVec 32 := 32
  dcbzlSize : BitVec 32 := 128
  icacheLineSize : BitVec 32 := 32
  abi : CallConvention := {}
  deriving Inhabited

/-- Why settings are refused. -/
inductive SettingsError where
  | unsupported (f : Fault)
  | lineSize (setting : String) (size : BitVec 32)
  deriving DecidableEq, Repr, Inhabited

namespace SettingsError

def message : SettingsError → String
  | unsupported f => f.message
  | lineSize setting size =>
      let sizes := Text.separated ", " (Processor.lineSizes.map fun s => toString s.toNat)
      s!"{(Fault.lineSize setting size.toNat).message} (expected one of [{sizes}])"

end SettingsError

namespace Settings

/-- Containers may be nested this deep in a settings file. -/
def depthLimit : Nat := 127

/-- Reads settings from an object. -/
def ofJson? (v : Json) : Option Settings :=
  match v with
  | .obj fields => do
      if !v.isPlain depthLimit then none
      let d : Settings := {}
      return {
        arch := ← Json.setting? fields "arch" (Json.named? Arch.ofName?) d.arch
        order := ← Json.setting? fields "endness" (Json.named? ByteOrder.ofName?) d.order
        caps := ← Json.setting? fields "hwcaps" Json.capsOrNull? none
        dcbzSize := ← Json.setting? fields "dcbz_szb" Json.word? d.dcbzSize
        dcbzlSize := ← Json.setting? fields "dcbzl_szb" Json.word? d.dcbzlSize
        icacheLineSize := ← Json.setting? fields "icache_line_szb" Json.word? d.icacheLineSize
        abi := ← CallConvention.ofFields? fields }
  | _ => none

def toJson (s : Settings) : Json :=
  .obj ([("arch", .str s.arch.name), ("endness", .str s.order.name),
    ("hwcaps", match s.caps with
      | some caps => .str caps.text
      | none => .null),
    ("dcbz_szb", .nat s.dcbzSize.toNat), ("dcbzl_szb", .nat s.dcbzlSize.toNat),
    ("icache_line_szb", .nat s.icacheLineSize.toNat)] ++ s.abi.toFields)

/-- The description of the guest's processor. -/
def processor (s : Settings) : Processor where
  caps := s.caps.getD (.own s.arch)
  order := s.order
  dcbzSize := s.dcbzSize
  dcbzlSize := s.dcbzlSize
  icacheLineSize := s.icacheLineSize

/-- The settings that are supported. -/
def check (s : Settings) : Except SettingsError Unit := do
  if !s.arch.is64 && s.order == .little then throw (.unsupported .littleEndian32)
  if let some caps := s.caps then
    let foreign := caps.foreign s.arch
    if foreign ≠ .empty then throw (.unsupported (.foreignCaps foreign s.arch))
  if let some (setting, size) := s.processor.badLineSize? then throw (.lineSize setting size)

/-- The guest that settings describe. -/
def guest (s : Settings) (warnRefused : Bool) : Guest where
  arch := s.arch
  info := s.processor
  abi := s.abi
  warnRefused := warnRefused

end Settings

end PowerLift
