import PowerLift.Proofs.Formation
import PowerLift.Proofs.Transcript
import PowerLift.Scan

/-!
# Commands end

Accepted settings lift every word, so that forming, walking and scanning fault only at an address
that exceeds 64 bits. There is none in an image whose end is an address.
-/

namespace PowerLift

/-! ## Accepted settings -/

/-- A variant has no capabilities that are foreign to it. -/
theorem Capabilities.foreign_own (arch : Arch) :
    (Capabilities.own arch).foreign arch = .empty := by
  cases arch <;> decide

namespace Settings

variable {s : Settings}

/-- Accepted settings have a byte order, capabilities and line sizes that their guest supports. -/
theorem supported_of_check (h : s.check = .ok ()) :
    (!s.arch.is64 && s.order == .little) = false ∧
      s.processor.caps.foreign s.arch = .empty ∧ s.processor.badLineSize? = none := by
  unfold check at h
  have horder : (!s.arch.is64 && s.order == .little) = false := by
    cases horder : !s.arch.is64 && s.order == .little with
    | false => rfl
    | true =>
        simp only [horder, if_true] at h
        contradiction
  simp only [horder, Bool.false_eq_true, if_false] at h
  have hsize : s.processor.badLineSize? = none := by
    cases hsize : s.processor.badLineSize? with
    | none => rfl
    | some entry =>
        simp only [hsize] at h
        split at h
        · split at h <;> contradiction
        · contradiction
  refine ⟨horder, ?_, hsize⟩
  cases hcaps : s.caps with
  | none => simpa [processor, hcaps] using Capabilities.foreign_own s.arch
  | some caps =>
      simp only [hcaps] at h
      split at h
      · contradiction
      next hforeign => simpa [processor, hcaps] using hforeign

/-- The guests that accepted settings describe are supported. -/
theorem guest_check (h : s.check = .ok ()) (warnRefused : Bool) :
    (s.guest warnRefused).check = .ok () := by
  obtain ⟨horder, hforeign, hsize⟩ := supported_of_check h
  have hprocessor : s.processor.order = s.order := rfl
  unfold Guest.check
  simp [guest, hprocessor, horder, hforeign, hsize]

end Settings

/-! ## Commands that end -/

namespace Session

variable {α β : Type} {m : Session α} {f : α → Session β} {a : α} {lines : Array String}
  {overflow : Prop}

/-- A command that ends with a result, or else at an address that exceeds 64 bits. -/
def Completes (overflow : Prop) (m : Session α) : Prop :=
  (∃ a lines, Prints m a lines) ∨
    overflow ∧ ∀ t, ∃ t', ExceptT.run m t = (.error (.fault .addOverflow), t')

theorem Prints.completes (h : Prints m a lines) : Completes overflow m := .inl ⟨a, lines, h⟩

namespace Completes

theorem pure (a : α) : Completes overflow (pure a : Session α) := (prints_pure a).completes

theorem logAll (log : Array LogLine) : Completes overflow (logAll log) :=
  (prints_logAll log).completes

/-- Behind a command whose result is known. -/
theorem after (hm : Prints m a lines) (hf : Completes overflow (f a)) :
    Completes overflow (m >>= f) := by
  rcases hf with ⟨b, lines', hf⟩ | ⟨hoverflow, hf⟩
  · exact (hm.bind hf).completes
  · refine .inr ⟨hoverflow, fun t => ?_⟩
    obtain ⟨log, hm⟩ := hm t
    rw [run_bind hm]
    exact hf _

theorem bind (hm : Completes overflow m) (hf : ∀ a, Completes overflow (f a)) :
    Completes overflow (m >>= f) := by
  rcases hm with ⟨a, lines, hm⟩ | ⟨hoverflow, hm⟩
  · exact .after hm (hf a)
  · refine .inr ⟨hoverflow, fun t => ?_⟩
    obtain ⟨t', hm⟩ := hm t
    exact ⟨t', run_bind hm⟩

theorem mono {overflow' : Prop} (h : Completes overflow m) (hmono : overflow → overflow') :
    Completes overflow' m :=
  h.imp_right fun h => ⟨hmono h.1, h.2⟩

/-- Behind a sum of addresses. -/
theorem add {a b : BitVec 64} {f : BitVec 64 → Session β}
    (hoverflow : 2 ^ 64 ≤ a.toNat + b.toNat → overflow)
    (hf : a.toNat + b.toNat < 2 ^ 64 → Completes overflow (f (a + b))) :
    Completes overflow (ofFault (Address.add a b) >>= f) := by
  unfold Address.add
  split
  next hlt => exact .after (prints_ofFault (a + b)) (hf hlt)
  next hlt => exact .inr ⟨hoverflow (Nat.le_of_not_lt hlt), fun t => ⟨t, rfl⟩⟩

theorem exec_eq (h : Completes overflow m) :
    (∃ a, m.exec.1 = .ok a) ∨ overflow ∧ m.exec.1 = .error (.fault .addOverflow) := by
  rcases h with ⟨a, lines, h⟩ | ⟨hoverflow, h⟩
  · exact .inl ⟨a, h.exec_eq.1⟩
  · obtain ⟨t, h⟩ := h {}
    exact .inr ⟨hoverflow, congrArg Prod.fst h⟩

end Completes

end Session

/-! ## One instruction -/

/-- A request is recognised only where all its words stand. -/
theorem Announced.span_le {code : ByteArray} {offset : Nat} (hcode : offset + 4 ≤ code.size)
    (arch : Arch) (order : ByteOrder) :
    offset + (scan code offset arch order).span ≤ code.size := by
  unfold scan
  split
  · cases hfetch : Insn.fetch? code (offset + 16) order with
    | none => exact hcode
    | some w =>
        have hlast : offset + 16 + 4 ≤ code.size := by
          unfold Insn.fetch? at hfetch
          split at hfetch
          next h => exact h
          next => contradiction
        simp only
        split
        · exact hlast
        · exact hcode
  · exact hcode

namespace Guest

open Session (Completes prints_pure prints_ofFault prints_print)

variable {g : Guest} {image : Image} {overflow : Prop}

/-- A lifting ends, and within the code. -/
theorem lift_within (hcheck : g.check = .ok ()) (hinjector : g.injector = none) {code : ByteArray}
    {offset : Nat} (hcode : offset + 4 ≤ code.size) (cia blockStart : BitVec 64) (block : Block) :
    ∃ l, (g.lift code offset cia blockStart block).result = .ok l ∧
      offset + l.length ≤ code.size := by
  obtain ⟨w, hanswers⟩ :=
    exists_answers hcheck hinjector hcode (show (Block.empty 0).types = #[] from rfl)
  cases hanswers with
  | refused hleft hleft_block hright hright_block =>
      refine ⟨_, hright, ?_⟩
      simp only
      omega
  | lifted q q' hook hmarked hending hleft hleft_block hright hright_block =>
      refine ⟨_, hright, ?_⟩
      simp only [← hmarked]
      exact Announced.span_le hcode g.arch g.info.order

/-- A step in an image ends, and the address behind it does not exceed the image's end. -/
theorem step_returns (hcheck : g.check = .ok ()) (hinjector : g.injector = none)
    {addr blockStart : BitVec 64} {follow : BitVec 64 → Bool} {block : Block} {report : Report}
    (hstep : g.step image addr blockStart follow block = some report) :
    ∃ l, report.result = .ok l ∧ addr.toNat + l.length ≤ image.base.toNat + image.bytes.size := by
  obtain ⟨offset, hoffset, rfl⟩ := Option.map_eq_some_iff.mp hstep
  obtain ⟨haddr, hcode⟩ := Image.offset?_eq_some hoffset
  have hfollow : { g with mayResteer := follow }.check = .ok () := hcheck
  obtain ⟨l, hresult, hlength⟩ := lift_within hfollow hinjector hcode addr blockStart block
  exact ⟨l, hresult, by omega⟩

/-! ## Forming and walking -/

/-- Behind an instruction, an address exceeds 64 bits only where the end of the image does. -/
theorem extend_completes (hcheck : g.check = .ok ()) (hinjector : g.injector = none)
    (start : BitVec 64) (budget : Nat) (addr : BitVec 64) (formed : Formed) :
    Completes (2 ^ 64 ≤ image.base.toNat + image.bytes.size)
      (g.extend image start budget addr formed) := by
  induction budget generalizing addr formed with
  | zero => exact .pure _
  | succ budget ih =>
      unfold extend
      simp only
      split
      next => exact .bind (.logAll _) fun _ => .pure _
      next report hstep =>
        obtain ⟨l, hresult, hbehind⟩ := step_returns hcheck hinjector hstep
        have hlength : (BitVec.ofNat 64 l.length).toNat ≤ l.length :=
          (BitVec.toNat_ofNat l.length 64).trans_le (Nat.mod_le _ _)
        rw [hresult]
        refine .bind (.logAll _) fun _ => .after (prints_ofFault l) ?_
        cases l.next with
        | «continue» => exact .add (fun hoverflow => by omega) fun _ => ih _ _
        | resteer target => exact ih target _
        | stop kind => exact .pure _

theorem visit_completes {maxInsns : Nat}
    (hforms : ∀ a, Completes overflow (g.form image a maxInsns)) (budget : Nat)
    (queue seen : List (BitVec 64)) (count : Nat) :
    Completes overflow (g.visit image maxInsns budget queue seen count) := by
  induction budget, queue, seen, count using visit.induct image with
  | case1 budget seen count =>
      unfold visit
      exact .pure count
  | case2 seen count a rest =>
      unfold visit
      exact .bind (.logAll _) fun _ => .pure count
  | case3 seen count a rest left hseen ih =>
      unfold visit
      rwa [if_pos hseen]
  | case4 seen count a rest left hseen houtside ih =>
      unfold visit
      rwa [if_neg hseen, if_pos houtside]
  | case5 seen count a rest left hseen hinside ih =>
      unfold visit
      rw [if_neg hseen, if_neg hinside]
      refine .bind (hforms a) fun formed => ?_
      exact .bind (showBlock_prints a formed).completes fun _ => ih formed

/-- A walk that does not fault fails only for its entry. -/
theorem walk_completes {limits : Limits}
    (hforms : ∀ a, Completes (2 ^ 64 ≤ image.base.toNat + image.bytes.size)
      (g.form image a (Nat.max 1 limits.maxInsns))) (entry : BitVec 64) :
    (g.walk image entry limits).exec.1 =
      (if image.offset? entry = none then
        .error (.entryOutside entry image.base (image.base + .ofNat 64 image.bytes.size))
      else if entry % 4 ≠ 0 then .error (.entryUnaligned entry)
      else .ok ()) ∨
    2 ^ 64 ≤ image.base.toNat + image.bytes.size ∧
      (g.walk image entry limits).exec.1 = .error (.fault .addOverflow) := by
  unfold walk
  cases hoffset : image.offset? entry with
  | none =>
      simp only [Option.isNone_none, if_true, Image.finish, Address.add]
      have hsize : (BitVec.ofNat 64 image.bytes.size).toNat ≤ image.bytes.size :=
        (BitVec.toNat_ofNat _ _).trans_le (Nat.mod_le _ _)
      split
      next hlt => exact .inl rfl
      next hlt =>
        have hoverflow : 2 ^ 64 ≤ image.base.toNat + (BitVec.ofNat 64 image.bytes.size).toNat :=
          Nat.le_of_not_lt hlt
        exact .inr ⟨by omega, rfl⟩
  | some offset =>
      simp only [Option.isNone_some, Bool.false_eq_true, if_false, reduceCtorEq]
      by_cases haligned : entry % 4 = 0
      · simp only [haligned, ne_eq, not_true_eq_false, if_false]
        have hvisit := visit_completes hforms limits.maxBlocks [entry] [] 0
        have hwalk := Session.Completes.exec_eq
          (.bind hvisit fun blocks => (prints_print s!"Decoded {blocks} block(s)").completes)
        exact hwalk.imp_left fun ⟨_, h⟩ => h
      · simp only [haligned, ne_eq, not_false_eq_true, if_true]
        exact .inl rfl

/-! ## Scanning -/

theorem isRefusedAt_completes (hcheck : g.check = .ok ()) (hinjector : g.injector = none)
    (addr : BitVec 64) (overflow : Prop) : Completes overflow (g.isRefusedAt image addr) := by
  unfold isRefusedAt
  split
  next => exact .pure true
  next report hstep =>
    obtain ⟨l, hresult, -⟩ := step_returns hcheck hinjector hstep
    rw [hresult]
    exact .bind (.logAll _) fun _ => .after (prints_ofFault l) (.pure _)

/-- A scan takes one word after the other, and no address exceeds 64 bits unless the end of the
words does. -/
theorem scanFrom_completes (hcheck : g.check = .ok ()) (hinjector : g.injector = none) {i : Nat}
    {addr : BitVec 64} (haddr : addr.toNat = image.base.toNat + 4 * i) (r : ScanReport) :
    Completes (2 ^ 64 ≤ image.base.toNat + 4 * (image.bytes.size / 4))
      (g.scanFrom image addr r) := by
  induction hleft : image.bytes.size / 4 - i generalizing i addr r with
  | zero =>
      rw [scanFrom_outside (by rw [Image.offset?_word haddr, if_neg (by omega)])]
      exact .pure r
  | succ left ih =>
      have hoffset : image.offset? addr = some (4 * i) := by
        rw [Image.offset?_word haddr, if_pos (by omega)]
      obtain ⟨word, hfetch⟩ := fetch?_isSome g.info.order (Image.offset?_eq_some hoffset).2
      have hfour : (4 : BitVec 64).toNat = 4 := rfl
      rw [scanFrom_word hoffset hfetch]
      refine .bind (isRefusedAt_completes hcheck hinjector addr _) fun isRefused => ?_
      refine .add (fun hoverflow => by omega) fun hlt => ?_
      have hbehind : (addr + 4).toNat = image.base.toNat + 4 * (i + 1) := by
        rw [BitVec.toNat_add, Nat.mod_eq_of_lt hlt]
        omega
      exact ih hbehind _ (by omega)

end Guest

/-- Under accepted settings no lifting faults: forming, walking and scanning end with a result or an
error about the entry, unless the image reaches beyond the last address. -/
theorem Settings.commands_end (s : Settings) (hcheck : s.check = .ok ()) (warnRefused : Bool)
    (image : Image) :
    (∀ start maxInsns,
      (∃ formed, ((s.guest warnRefused).form image start maxInsns).exec.1 = .ok formed) ∨
      2 ^ 64 ≤ image.base.toNat + image.bytes.size ∧
        ((s.guest warnRefused).form image start maxInsns).exec.1 =
          .error (.fault .addOverflow)) ∧
    (∀ entry limits,
      ((s.guest warnRefused).walk image entry limits).exec.1 =
        (if image.offset? entry = none then
          .error (.entryOutside entry image.base (image.base + .ofNat 64 image.bytes.size))
        else if entry % 4 ≠ 0 then .error (.entryUnaligned entry)
        else .ok ()) ∨
      2 ^ 64 ≤ image.base.toNat + image.bytes.size ∧
        ((s.guest warnRefused).walk image entry limits).exec.1 = .error (.fault .addOverflow)) ∧
    ((∃ r, ((s.guest warnRefused).scan image).exec.1 = .ok r) ∨
      2 ^ 64 ≤ image.base.toNat + 4 * (image.bytes.size / 4) ∧
        ((s.guest warnRefused).scan image).exec.1 = .error (.fault .addOverflow)) := by
  have hguest := Settings.guest_check hcheck warnRefused
  have hforms : ∀ maxInsns start, Session.Completes
      (2 ^ 64 ≤ image.base.toNat + image.bytes.size)
      ((s.guest warnRefused).form image start maxInsns) :=
    fun maxInsns start => Guest.extend_completes hguest rfl start maxInsns start _
  refine ⟨fun start maxInsns => ?_, fun entry limits => ?_, ?_⟩
  · exact (hforms maxInsns start).exec_eq
  · exact Guest.walk_completes (hforms _) entry
  · have hbase : image.base.toNat = image.base.toNat + 4 * 0 := rfl
    exact (Guest.scanFrom_completes hguest rfl hbase {}).exec_eq

/-- One word that does nothing, well below the last address. -/
theorem Settings.commands_end_below :
    let g := Settings.guest {} true
    let image : Image := ⟨0x1000, ⟨#[0x60, 0, 0, 0]⟩⟩
    Settings.check {} = .ok () ∧
      (∀ start maxInsns, ∃ formed, (g.form image start maxInsns).exec.1 = .ok formed) ∧
      (∀ limits, (g.walk image 0x1000 limits).exec.1 = .ok ()) ∧
      ∃ r, (g.scan image).exec.1 = .ok r := by
  intro g image
  have hcheck : Settings.check {} = .ok () := rfl
  have hfinish : ¬ 2 ^ 64 ≤ image.base.toNat + image.bytes.size := by decide
  have hwords : ¬ 2 ^ 64 ≤ image.base.toNat + 4 * (image.bytes.size / 4) := by decide
  obtain ⟨hform, hwalk, hscan⟩ := Settings.commands_end {} hcheck true image
  refine ⟨hcheck, fun start maxInsns => ?_, fun limits => ?_, ?_⟩
  · exact (hform start maxInsns).resolve_right fun h => hfinish h.1
  · exact (hwalk 0x1000 limits).resolve_right fun h => hfinish h.1
  · exact hscan.resolve_right fun h => hwords h.1

/-- The same word at the last address: none of the commands ends with a result. -/
theorem Settings.commands_overflow :
    let g := Settings.guest {} true
    let image : Image := ⟨0xFFFFFFFFFFFFFFFC, ⟨#[0x60, 0, 0, 0]⟩⟩
    Settings.check {} = .ok () ∧
      (g.form image 0xFFFFFFFFFFFFFFFC 64).exec.1 = .error (.fault .addOverflow) ∧
      (g.walk image 0xFFFFFFFFFFFFFFFC {}).exec.1 = .error (.fault .addOverflow) ∧
      (g.walk image 0x1000 {}).exec.1 = .error (.fault .addOverflow) ∧
      (g.scan image).exec.1 = .error (.fault .addOverflow) := by
  refine ⟨rfl, rfl, ?_, rfl, ?_⟩
  · unfold Guest.walk Guest.visit
    rfl
  · unfold Guest.scan Guest.scanFrom
    rfl

end PowerLift
