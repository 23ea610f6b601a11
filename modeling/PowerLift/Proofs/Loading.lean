import PowerLift.Command
import PowerLift.Proofs.Operations
import PowerLift.Proofs.Transcript

/-!
# Loading executable files

Whatever a file says about its sections and symbols, loading it gives the code at an address or says
why there is none, but where a sum of addresses or of places in the file exceeds 64 bits. The code
is the part of the file that the first executable section holding the address names.
-/

namespace PowerLift

/-- A failure in two steps. -/
theorem bind_eq_error {ε α β : Type} {x : Except ε α} {f : α → Except ε β} {e : ε} :
    x >>= f = .error e ↔ x = .error e ∨ ∃ a, x = .ok a ∧ f a = .error e := by
  constructor
  · intro h
    cases x with
    | error e' => exact .inl (congrArg _ (Except.error.inj h))
    | ok a => exact .inr ⟨a, rfl, h⟩
  · rintro (rfl | ⟨a, rfl, h⟩)
    · rfl
    · exact h

namespace Elf

namespace Section

/-- An address is one of the section's, however far the section extends. -/
def Covers (s : Section) (addr : BitVec 64) : Prop :=
  s.addr.toNat ≤ addr.toNat ∧ addr.toNat < s.addr.toNat + s.size.toNat

/-- The address behind the section exceeds 64 bits. -/
def Overhangs (s : Section) : Prop := UInt64.size ≤ s.addr.toNat + s.size.toNat

instance (s : Section) (addr : BitVec 64) : Decidable (s.Covers addr) :=
  inferInstanceAs (Decidable (_ ∧ _))

instance (s : Section) : Decidable s.Overhangs := inferInstanceAs (Decidable (_ ≤ _))

/-- The place of an address of the section in the file. -/
def place (s : Section) (addr : BitVec 64) : Nat := s.offset.toNat + (addr.toNat - s.addr.toNat)

variable {s : Section} {addr : BitVec 64}

theorem toNat_sub (h : s.Covers addr) : (addr - s.addr).toNat = addr.toNat - s.addr.toNat :=
  BitVec.toNat_sub_of_le (BitVec.le_def.mpr h.1)

/-- The sum that gives the place of an address in the file. -/
theorem add_place (h : s.Covers addr) : Address.add s.offset (addr - s.addr) =
    if s.place addr < UInt64.size then .ok (.ofNat 64 (s.place addr)) else .error .addOverflow := by
  have hsum : s.offset + (addr - s.addr) = .ofNat 64 (s.place addr) :=
    BitVec.eq_of_toNat_eq (by rw [BitVec.toNat_add, toNat_sub h, BitVec.toNat_ofNat, place])
  rw [Address.add, toNat_sub h, hsum, place]

/-- The test whether an address lies in a section. -/
theorem holds_eq (s : Section) (addr : BitVec 64) : s.holds addr =
    if s.Covers addr then (if s.Overhangs then .error .addOverflow else .ok true)
    else .ok false := by
  have hlimit : addr.toNat < UInt64.size := addr.isLt
  unfold holds
  by_cases hbelow : addr < s.addr
  · have hout : ¬ s.Covers addr := fun h => Nat.not_lt.mpr h.1 hbelow
    rw [if_pos hbelow, if_neg hout]
    rfl
  have hle : s.addr.toNat ≤ addr.toNat := Nat.not_lt.mp hbelow
  rw [if_neg hbelow]
  by_cases hover : s.Overhangs
  · have hin : s.Covers addr := ⟨hle, hlimit.trans_le hover⟩
    rw [if_pos hin, if_pos hover, Address.add, if_neg (Nat.not_lt.mpr hover)]
    rfl
  · have hfits : s.addr.toNat + s.size.toNat < UInt64.size := Nat.not_le.mp hover
    have hend : (s.addr + s.size).toNat = s.addr.toNat + s.size.toNat :=
      BitVec.toNat_add_of_lt hfits
    rw [if_neg hover, Address.add, if_pos hfits]
    by_cases hin : s.Covers addr
    · have hlt : addr < s.addr + s.size := BitVec.lt_def.mpr (hend ▸ hin.2)
      rw [if_pos hin]
      exact congrArg Except.ok (decide_eq_true hlt)
    · have hge : ¬ addr < s.addr + s.size := fun h => hin ⟨hle, hend ▸ BitVec.lt_def.mp h⟩
      rw [if_neg hin]
      exact congrArg Except.ok (decide_eq_false hge)

end Section

variable {elf : Elf} {data : ByteArray} {asked addr : BitVec 64} {s : Section}

/-- The search for a section stops at the first one that covers the address. -/
theorem firstHolding_eq (addr : BitVec 64) (sections : List Section) :
    firstHolding addr sections =
      match sections.find? fun s => s.Covers addr with
      | none => .error (.notExecutable addr)
      | some s => if s.Overhangs then .error (.fault .addOverflow) else .ok s := by
  induction sections with
  | nil => rfl
  | cons s rest ih =>
      rw [firstHolding, Section.holds_eq, List.find?_cons]
      by_cases hin : s.Covers addr
      · by_cases hover : s.Overhangs
        · simp only [hin, hover, if_true, decide_true]
          rfl
        · simp only [hin, hover, if_true, if_false, decide_true]
          rfl
      · simp only [hin, if_false, decide_false]
        exact ih

/-- The section that decides whether an address can be executed. -/
def codeSection? (elf : Elf) (addr : BitVec 64) : Option Section :=
  (elf.sections.filter Section.isExecutable).find? fun s => s.Covers addr

/-- The section found for an address extends beyond the last address. -/
def CodeOverflows (elf : Elf) (addr : BitVec 64) : Prop :=
  ∃ s, elf.codeSection? addr = some s ∧ s.Overhangs

theorem executableAt_eq_ok_iff :
    elf.executableAt addr = .ok s ↔ elf.codeSection? addr = some s ∧ ¬ s.Overhangs := by
  rw [executableAt, firstHolding_eq, ← codeSection?]
  cases elf.codeSection? addr with
  | none => exact ⟨nofun, fun h => nomatch h.1⟩
  | some s' =>
      by_cases hover : s'.Overhangs
      · simp only [hover, if_true]
        exact ⟨nofun, fun h => absurd (Option.some.inj h.1 ▸ hover) h.2⟩
      · simp only [hover, if_false]
        exact ⟨fun h => Except.ok.inj h ▸ ⟨rfl, hover⟩, fun h => congrArg _ (Option.some.inj h.1)⟩

theorem executableAt_eq_fault_iff {f : Fault} :
    elf.executableAt addr = .error (.fault f) ↔ f = .addOverflow ∧ elf.CodeOverflows addr := by
  rw [executableAt, firstHolding_eq, ← codeSection?, CodeOverflows]
  cases elf.codeSection? addr with
  | none => simp
  | some s => by_cases hover : s.Overhangs <;> simp [hover, eq_comm]

/-! ## Function descriptors -/

/-- The section of function descriptors, if it covers an address. -/
def Describes (elf : Elf) (t : Section) (asked : BitVec 64) : Prop :=
  elf.sectionNamed? ".opd" = some t ∧ t.Covers asked

/-- The end of the descriptors or the place of a descriptor exceeds 64 bits. -/
def TableOverflows (elf : Elf) (asked : BitVec 64) : Prop :=
  ∃ t, elf.Describes t asked ∧ (t.Overhangs ∨ UInt64.size ≤ t.place asked + 8)

/-- Where code that was asked for by an address starts: at the address, or, where it is that of a
function descriptor, at the address in the descriptor. -/
inductive Resolves (elf : Elf) (data : ByteArray) (asked : BitVec 64) : BitVec 64 → Prop where
  | code (hnone : ∀ t, ¬ elf.Describes t asked) : Resolves elf data asked asked
  | descriptor (t : Section) (ht : elf.Describes t asked) (bytes : ByteArray)
      (hbytes : slice? data (t.place asked) 8 = some bytes) :
      Resolves elf data asked (.ofNat 64 (number elf.format.order bytes.toList))

theorem descriptor?_of_none (h : ∀ t, ¬ elf.Describes t asked) :
    elf.descriptor? data asked = .ok none := by
  unfold descriptor?
  cases htable : elf.sectionNamed? ".opd" with
  | none => rfl
  | some t =>
      have hout : ¬ t.Covers asked := fun hin => h t ⟨htable, hin⟩
      simp only [Section.holds_eq, hout, if_false]
      rfl

theorem descriptor?_of_describes {t : Section} (ht : elf.Describes t asked) :
    elf.descriptor? data asked =
      if t.Overhangs ∨ UInt64.size ≤ t.place asked + 8 then .error (.fault .addOverflow)
      else match number? data elf.format.order (t.place asked) 8 with
        | none => .error (.truncatedDescriptor asked)
        | some code => .ok (some (.ofNat 64 code)) := by
  obtain ⟨htable, hin⟩ := ht
  unfold descriptor?
  simp only [htable, Section.holds_eq, hin, if_true]
  by_cases hover : t.Overhangs
  · simp only [hover, if_true, true_or]
    rfl
  simp only [hover, if_false, false_or, Section.add_place hin]
  -- The place of the descriptor, and then its end, must not exceed 64 bits.
  by_cases hplace : t.place asked < UInt64.size
  · have htoNat : (BitVec.ofNat 64 (t.place asked)).toNat = t.place asked :=
      Nat.mod_eq_of_lt hplace
    have hbehind : Address.add (.ofNat 64 (t.place asked)) 8 =
        if t.place asked + 8 < UInt64.size then .ok (.ofNat 64 (t.place asked) + 8)
        else .error .addOverflow := by
      rw [Address.add, htoNat]
      rfl
    simp only [if_pos hplace, ofFault, Except.mapError, ok_bind, hbehind, htoNat]
    by_cases hfits : t.place asked + 8 < UInt64.size
    · rw [if_neg (Nat.not_le.mpr hfits), if_pos hfits]
      rfl
    · rw [if_pos (Nat.not_lt.mp hfits), if_neg hfits]
      rfl
  · have hover : UInt64.size ≤ t.place asked + 8 := by omega
    rw [if_pos hover, if_neg hplace]
    rfl

theorem Describes.overflows_iff {t : Section} (ht : elf.Describes t asked) :
    elf.TableOverflows asked ↔ t.Overhangs ∨ UInt64.size ≤ t.place asked + 8 := by
  refine ⟨fun ⟨t', ht', hover⟩ => ?_, fun hover => ⟨t, ht, hover⟩⟩
  obtain rfl : t = t' := Option.some.inj (ht.1.symm.trans ht'.1)
  exact hover

theorem descriptor?_eq_fault_iff {f : Fault} :
    elf.descriptor? data asked = .error (.fault f) ↔
      f = .addOverflow ∧ elf.TableOverflows asked := by
  by_cases hdescribes : ∃ t, elf.Describes t asked
  · obtain ⟨t, ht⟩ := hdescribes
    rw [descriptor?_of_describes ht, ht.overflows_iff]
    by_cases hover : t.Overhangs ∨ UInt64.size ≤ t.place asked + 8
    · simp only [hover, and_true]
      exact ⟨fun h => Failure.fault.inj (Except.error.inj h) |>.symm, fun h => h ▸ rfl⟩
    · simp only [hover, and_false, iff_false]
      cases number? data elf.format.order (t.place asked) 8 <;> exact nofun
  · rw [descriptor?_of_none (not_exists.mp hdescribes)]
    exact ⟨nofun, fun ⟨_, t, ht, _⟩ => absurd ⟨t, ht⟩ hdescribes⟩

theorem descriptor?_eq_ok_iff :
    (∃ code, elf.descriptor? data asked = .ok code ∧ code.getD asked = addr) ↔
      elf.Resolves data asked addr ∧ ¬ elf.TableOverflows asked := by
  by_cases hdescribes : ∃ t, elf.Describes t asked
  · obtain ⟨t, ht⟩ := hdescribes
    rw [descriptor?_of_describes ht, ht.overflows_iff, number?]
    by_cases hover : t.Overhangs ∨ UInt64.size ≤ t.place asked + 8
    · simp only [hover, not_true, and_false, iff_false]
      exact nofun
    simp only [hover, not_false_iff, and_true]
    constructor
    · rintro ⟨code, hcode, rfl⟩
      cases hbytes : slice? data (t.place asked) 8 with
      | none => simp [hbytes] at hcode
      | some bytes =>
          rw [hbytes] at hcode
          obtain rfl := Except.ok.inj hcode
          exact .descriptor t ht bytes hbytes
    · intro hresolves
      cases hresolves with
      | code hnone => exact absurd ht (hnone t)
      | descriptor t' ht' bytes hbytes =>
          obtain rfl : t = t' := Option.some.inj (ht.1.symm.trans ht'.1)
          exact ⟨_, by rw [hbytes]; rfl, rfl⟩
  · rw [descriptor?_of_none (not_exists.mp hdescribes)]
    constructor
    · rintro ⟨code, hcode, rfl⟩
      obtain rfl := Except.ok.inj hcode
      exact ⟨.code (not_exists.mp hdescribes), fun ⟨t, ht, _⟩ => hdescribes ⟨t, ht⟩⟩
    · rintro ⟨hresolves, -⟩
      cases hresolves with
      | code hnone => exact ⟨none, rfl, rfl⟩
      | descriptor t ht bytes hbytes => exact absurd ⟨t, ht⟩ hdescribes

/-! ## Loading -/

/-- The part of the file that a section names, mapped at the section's address. -/
structure Maps (data : ByteArray) (s : Section) (image : Image) : Prop where
  base_eq : image.base = s.addr
  /-- A section without bytes in the file is not mapped. -/
  inFile : s.isEmptyInFile = false
  within : s.offset.toNat + s.size.toNat ≤ data.size
  bytes_eq : image.bytes = data.extract s.offset.toNat (s.offset.toNat + s.size.toNat)

theorem image_eq_ok_iff {image : Image} : Elf.image data s = .ok image ↔ Maps data s image := by
  unfold Elf.image slice?
  constructor
  · intro h
    split at h
    next => cases h
    next hempty =>
      by_cases hwithin : s.offset.toNat + s.size.toNat ≤ data.size
      · rw [if_pos hwithin] at h
        obtain rfl := Except.ok.inj h
        exact ⟨rfl, Bool.eq_false_iff.mpr hempty, hwithin, rfl⟩
      · rw [if_neg hwithin] at h
        cases h
  · rintro ⟨hbase, hempty, hwithin, hbytes⟩
    rw [hempty, if_pos hwithin, ← hbase, ← hbytes]
    rfl

theorem image_ne_fault {f : Fault} : Elf.image data s ≠ .error (.fault f) := by
  unfold Elf.image
  split
  next => exact nofun
  next => split <;> exact nofun

/-- The image of a section holds the addresses that the section covers. -/
theorem Maps.contains {image : Image} (h : Maps data s image) (haddr : s.Covers addr) :
    image.contains addr = true := by
  have hsize : image.bytes.size = s.size.toNat := by
    rw [h.bytes_eq, ByteArray.size_extract]
    have := h.within
    omega
  obtain ⟨hle, hlt⟩ := haddr
  rw [Image.contains, h.base_eq, hsize, Bool.and_eq_true, decide_eq_true_iff, decide_eq_true_iff]
  exact ⟨BitVec.le_def.mpr hle, by omega⟩

theorem arch_ne_fault {f : Fault} : elf.arch ≠ .error (.fault f) := by
  unfold arch
  split <;> exact nofun

theorem startAddress_ne_fault {start : Start} {f : Fault} :
    elf.startAddress start ≠ .error (.fault f) := by
  unfold startAddress
  split
  next => exact nofun
  next => exact nofun
  next => split <;> exact nofun

end Elf

namespace Session

variable {α β : Type} {m : Session α} {r : Except Failure α} {f : α → Session β}
  {q : α → Except Failure β}

/-- The result of a command, whatever was put out before. -/
def Yields (m : Session α) (r : Except Failure α) : Prop :=
  ∀ t : Transcript, (ExceptT.run m t).1 = r

namespace Yields

theorem pure (a : α) : Yields (Pure.pure a) (.ok a) := fun _ => rfl

theorem ofExcept (r : Except Failure α) : Yields (Session.ofExcept r) r := by
  cases r <;> exact fun _ => rfl

theorem log (severity : Severity) (text : String) : Yields (Session.log severity text) (.ok ()) :=
  fun _ => rfl

theorem bind (hm : Yields m r) (hf : ∀ a, Yields (f a) (q a)) : Yields (m >>= f) (r >>= q) := by
  intro t
  rw [run_bind (r := r) (Prod.ext (hm t) rfl)]
  cases r with
  | error failure => rfl
  | ok a => exact hf a _

end Yields

end Session

namespace Command

open Session (Yields)
open Elf (Maps)

variable {elf : Elf} {data : ByteArray} {start : Elf.Start} {image : Image}
  {target : Arch × ByteOrder} {addr : BitVec 64}

/-- Loading without what it notes down. -/
theorem load_exec (elf : Elf) (data : ByteArray) (start : Elf.Start) :
    (load elf data start).exec.1 = (do
      let arch ← elf.arch
      let asked ← elf.startAddress start
      let code ← elf.descriptor? data asked
      let s ← elf.executableAt (code.getD asked)
      let image ← Elf.image data s
      return (image, (arch, elf.format.order), code.getD asked)) := by
  -- From the descriptor on, the commands for a code address and for a descriptor are the same.
  have hrest (arch : Arch) (addr : BitVec 64) :
      Yields (do
        let code ← Session.ofExcept (elf.executableAt addr)
        let image ← Session.ofExcept (Elf.image data code)
        let name := (elf.sectionNames.get? code.name).getD "?"
        let place := s!"{name} at {Text.hex image.base.toNat}"
        Session.log .info s!"decoding from {place} ({image.bytes.size} bytes)"
        return (image, (arch, elf.format.order), addr))
      (do
        let s ← elf.executableAt addr
        let image ← Elf.image data s
        return (image, (arch, elf.format.order), addr)) :=
    .bind (.ofExcept _) fun s => .bind (.ofExcept _) fun image => .bind (.log _ _) fun _ => .pure _
  refine Yields.bind (.ofExcept _) (fun arch => ?_) {}
  refine .bind (.ofExcept _) fun asked => .bind (.ofExcept _) fun code => ?_
  cases code with
  | none => exact hrest arch asked
  | some code => exact .bind (.log _ _) fun _ => hrest arch code

theorem load_eq_ok (h : (load elf data start).exec.1 = .ok (image, target, addr)) :
    ∃ arch asked code s, elf.arch = .ok arch ∧ target = (arch, elf.format.order) ∧
      elf.startAddress start = .ok asked ∧ elf.descriptor? data asked = .ok code ∧
      code.getD asked = addr ∧ elf.executableAt addr = .ok s ∧ Elf.image data s = .ok image := by
  rw [load_exec] at h
  obtain ⟨arch, harch, h⟩ := bind_eq_ok.mp h
  obtain ⟨asked, hasked, h⟩ := bind_eq_ok.mp h
  obtain ⟨code, hcode, h⟩ := bind_eq_ok.mp h
  obtain ⟨s, hs, h⟩ := bind_eq_ok.mp h
  obtain ⟨image', himage, h⟩ := bind_eq_ok.mp h
  cases h
  exact ⟨arch, asked, code, s, harch, rfl, hasked, hcode, rfl, hs, himage⟩

theorem load_eq_fault_iff {f : Fault} :
    (load elf data start).exec.1 = .error (.fault f) ↔
      f = .addOverflow ∧ (∃ arch, elf.arch = .ok arch) ∧
        ∃ asked, elf.startAddress start = .ok asked ∧ (elf.TableOverflows asked ∨
          ∃ addr, (elf.Resolves data asked addr ∧ ¬ elf.TableOverflows asked) ∧
            elf.CodeOverflows addr) := by
  have hpure {α : Type} (a : α) : (pure a : Except Failure α) ≠ .error (.fault f) := nofun
  -- Only the table of descriptors and the section of the code are faulty.
  simp only [load_exec, bind_eq_error, Elf.arch_ne_fault, Elf.startAddress_ne_fault,
    Elf.descriptor?_eq_fault_iff, Elf.executableAt_eq_fault_iff, Elf.image_ne_fault, hpure,
    ← Elf.descriptor?_eq_ok_iff, and_false, exists_false, false_or, or_false]
  constructor
  · rintro ⟨arch, harch, asked, hasked, ⟨hf, htable⟩ | ⟨code, hcode, hf, hover⟩⟩
    · exact ⟨hf, ⟨arch, harch⟩, asked, hasked, .inl htable⟩
    · exact ⟨hf, ⟨arch, harch⟩, asked, hasked, .inr ⟨_, ⟨code, hcode, rfl⟩, hover⟩⟩
  · rintro ⟨hf, ⟨arch, harch⟩, asked, hasked, htable | ⟨_, ⟨code, hcode, rfl⟩, hover⟩⟩
    · exact ⟨arch, harch, asked, hasked, .inl ⟨hf, htable⟩⟩
    · exact ⟨arch, harch, asked, hasked, .inr ⟨code, hcode, hf, hover⟩⟩

/-- Loading an executable file fails with a fault only where a sum exceeds 64 bits, and exactly
there: at the end of the descriptor section that covers the start asked for, behind the descriptor
in the file, or at the end of the section that covers the code. What it loads is the part of the
file that an executable section names; the section and the image hold the start, which is the one
asked for or the one in its descriptor. -/
theorem load_sound (elf : Elf) (data : ByteArray) (start : Elf.Start) :
    (∀ f, (load elf data start).exec.1 = .error (.fault f) ↔
      f = .addOverflow ∧ (∃ arch, elf.arch = .ok arch) ∧
        ∃ asked, elf.startAddress start = .ok asked ∧ (elf.TableOverflows asked ∨
          ∃ addr, (elf.Resolves data asked addr ∧ ¬ elf.TableOverflows asked) ∧
            elf.CodeOverflows addr)) ∧
      ∀ image target addr, (load elf data start).exec.1 = .ok (image, target, addr) →
        ∃ s ∈ elf.sections, s.isExecutable = true ∧ s.Covers addr ∧ ¬ s.Overhangs ∧
          Maps data s image ∧ image.contains addr = true ∧
          elf.arch = .ok target.1 ∧ target.2 = elf.format.order ∧
          ∃ asked, elf.startAddress start = .ok asked ∧ elf.Resolves data asked addr := by
  refine ⟨fun f => load_eq_fault_iff, fun image target addr hload => ?_⟩
  obtain ⟨arch, asked, code, s, harch, rfl, hasked, hcode, haddr, hs, himage⟩ := load_eq_ok hload
  obtain ⟨hsection, hfits⟩ := Elf.executableAt_eq_ok_iff.mp hs
  have hmaps : Maps data s image := Elf.image_eq_ok_iff.mp himage
  have hcovers : s.Covers addr := by simpa using List.find?_some hsection
  obtain ⟨hmem, hexecutable⟩ := List.mem_filter.mp (List.mem_of_find?_eq_some hsection)
  have hresolves := (Elf.descriptor?_eq_ok_iff.mp ⟨code, hcode, haddr⟩).1
  exact ⟨s, hmem, hexecutable, hcovers, hfits, hmaps, hmaps.contains hcovers, harch, rfl, asked,
    hasked, hresolves⟩

/-- A function descriptor at the entry of a file, and behind it in the file the code. -/
theorem load_sound_descriptor :
    let table : Elf.Section := ⟨0, 1, 3, 0x2000, 0, 8, 0, 0⟩
    let code : Elf.Section := ⟨5, 1, 6, 0x1000, 8, 4, 0, 0⟩
    let names : Elf.NameTable := ⟨[0x2E, 0x6F, 0x70, 0x64, 0, 0x2E, 0x74, 0]⟩
    let elf : Elf := ⟨⟨.big, true⟩, 21, 0x2000, [table, code], names, [], {}, none⟩
    let data : ByteArray := ⟨#[0, 0, 0, 0, 0, 0, 0x10, 0, 0x4E, 0x80, 0, 0x20]⟩
    ∃ image, (load elf data .entry).exec.1 = .ok (image, (.ppc64, .big), 0x1000) ∧
      image.contains 0x1000 = true ∧ (∃ s ∈ elf.sections, Maps data s image) ∧
      elf.Resolves data 0x2000 0x1000 := by
  intro table code names elf data
  have hend : (load elf data .entry).exec.1.toOption.map Prod.snd =
      some ((.ppc64, .big), 0x1000) := by decide +kernel
  cases hload : (load elf data .entry).exec.1 with
  | error failure =>
      rw [hload] at hend
      contradiction
  | ok loaded =>
      obtain ⟨image, target, addr⟩ := loaded
      rw [hload] at hend
      obtain ⟨rfl, rfl⟩ := Prod.mk.inj (Option.some.inj hend)
      obtain ⟨s, hs, -, -, -, hmaps, hcontains, -, -, asked, hasked, hresolves⟩ :=
        (load_sound elf data .entry).2 image _ _ hload
      obtain rfl := Except.ok.inj hasked
      exact ⟨image, rfl, hcontains, ⟨s, hs, hmaps⟩, hresolves⟩

/-- Code in the last word of memory cannot be loaded, although the file has it. -/
theorem load_overflows :
    let code : Elf.Section := ⟨0, 1, 6, 0xFFFFFFFFFFFFFFFC, 0, 4, 0, 0⟩
    let elf : Elf := ⟨⟨.big, true⟩, 21, 0xFFFFFFFFFFFFFFFC, [code], {}, [], {}, none⟩
    let data : ByteArray := ⟨#[0x4E, 0x80, 0, 0x20]⟩
    code.isExecutable = true ∧ code.Covers elf.entry ∧ Maps data code ⟨code.addr, data⟩ ∧
      (load elf data .entry).exec.1 = .error (.fault .addOverflow) := by
  intro code elf data
  have hoverflows : elf.CodeOverflows elf.entry := ⟨code, by decide, by decide⟩
  have hdirect : elf.Resolves data elf.entry elf.entry := .code fun t ht => nomatch ht.1
  refine ⟨by decide, by decide, ⟨rfl, rfl, by decide, by decide⟩, ?_⟩
  refine load_eq_fault_iff.mpr ⟨rfl, ⟨_, rfl⟩, _, rfl, .inr ⟨_, ⟨hdirect, ?_⟩, hoverflows⟩⟩
  exact fun ⟨t, ht, _⟩ => nomatch ht.1

end Command

end PowerLift
