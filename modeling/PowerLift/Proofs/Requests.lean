import PowerLift.Proofs.Acceptance
import PowerLift.Proofs.StringBytes

/-!
# Requests in code

A request is five words of code, four that announce it and one that names it. Whether it stands at a
position is a matter of twenty bytes. Where no announcement with a whole word behind it stands, the
lifting reads four bytes of the code and no others.
-/

namespace PowerLift

/-! ## Words of code -/

namespace Insn

/-- The bytes of a word in code of the byte order. -/
def image (order : ByteOrder) (w : BitVec 32) : List UInt8 :=
  let descending := [24, 16, 8, 0].map fun shift => UInt8.ofBitVec (w.extractLsb' shift 8)
  match order with
  | .big => descending
  | .little => descending.reverse

/-- The words stand at `offset`, one behind the other. -/
def StandAt (order : ByteOrder) (code : ByteArray) (offset : Nat) (words : List (BitVec 32)) :
    Prop :=
  words.flatMap (image order) <+: code.data.toList.drop offset

instance (order : ByteOrder) (code : ByteArray) (offset : Nat) (words : List (BitVec 32)) :
    Decidable (StandAt order code offset words) :=
  inferInstanceAs (Decidable (_ <+: _))

/-- The word that the first four bytes are. -/
def ofImage? (order : ByteOrder) : List UInt8 → Option Insn
  | a :: b :: c :: d :: _ =>
      some ⟨match order with
        | .big => a.toBitVec ++ b.toBitVec ++ c.toBitVec ++ d.toBitVec
        | .little => d.toBitVec ++ c.toBitVec ++ b.toBitVec ++ a.toBitVec⟩
  | _ => none

variable {order : ByteOrder} {code code' : ByteArray} {offset offset' : Nat} {w : BitVec 32}
  {words : List (BitVec 32)}

theorem append_eq_iff {a b c d : BitVec 8} :
    (a ++ b ++ c ++ d : BitVec 32) = w ↔
      w.extractLsb' 24 8 = a ∧ w.extractLsb' 16 8 = b ∧ w.extractLsb' 8 8 = c ∧
        w.extractLsb' 0 8 = d := by
  have hbytes : (a ++ b ++ c ++ d : BitVec 32).extractLsb' 24 8 = a ∧
      (a ++ b ++ c ++ d : BitVec 32).extractLsb' 16 8 = b ∧
      (a ++ b ++ c ++ d : BitVec 32).extractLsb' 8 8 = c ∧
      (a ++ b ++ c ++ d : BitVec 32).extractLsb' 0 8 = d := by
    refine ⟨?_, ?_, ?_, Multiple.extract_append_low (a ++ b ++ c) d⟩
    · exact (Multiple.extract_append_high (a ++ b ++ c) d 16).trans
        ((Multiple.extract_append_high (a ++ b) c 8).trans
          ((Multiple.extract_append_high a b 0).trans BitVec.extractLsb'_eq_self))
    · exact (Multiple.extract_append_high (a ++ b ++ c) d 8).trans
        ((Multiple.extract_append_high (a ++ b) c 0).trans (Multiple.extract_append_low a b))
    · exact (Multiple.extract_append_high (a ++ b ++ c) d 0).trans
        (Multiple.extract_append_low (a ++ b) c)
  obtain ⟨ha, hb, hc, hd⟩ := hbytes
  constructor
  · rintro rfl
    exact ⟨ha, hb, hc, hd⟩
  · rintro ⟨hwa, hwb, hwc, hwd⟩
    apply Multiple.eq_of_bytes
    intro r hr
    match r, hr with
    | 0, _ => exact ha.trans hwa.symm
    | 1, _ => exact hb.trans hwb.symm
    | 2, _ => exact hc.trans hwc.symm
    | 3, _ => exact hd.trans hwd.symm

theorem ofImage?_eq_some_iff {bytes : List UInt8} :
    ofImage? order bytes = some ⟨w⟩ ↔ image order w <+: bytes := by
  match bytes with
  | [] | [_] | [_, _] | [_, _, _] => cases order <;> simp [ofImage?, image]
  | a :: b :: c :: d :: rest =>
      have hbyte : ∀ (v : BitVec 8) (u : UInt8), UInt8.ofBitVec v = u ↔ v = u.toBitVec :=
        fun v u => ⟨fun h => by rw [← h], fun h => by rw [h]⟩
      cases order with
      | big =>
          simp only [ofImage?, image, Option.some.injEq, Insn.mk.injEq, append_eq_iff,
            List.map_cons, List.map_nil, List.cons_prefix_cons, List.nil_prefix, and_true, hbyte]
      | little =>
          simp only [ofImage?, image, Option.some.injEq, Insn.mk.injEq, append_eq_iff,
            List.map_cons, List.map_nil, List.reverse_cons, List.reverse_nil, List.nil_append,
            List.cons_append, List.cons_prefix_cons, List.nil_prefix, and_true, hbyte]
          exact ⟨fun ⟨hd, hc, hb, ha⟩ => ⟨ha, hb, hc, hd⟩, fun ⟨ha, hb, hc, hd⟩ => ⟨hd, hc, hb, ha⟩⟩

theorem fetch?_eq (code : ByteArray) (offset : Nat) (order : ByteOrder) :
    fetch? code offset order = ofImage? order (code.data.toList.drop offset) := by
  have hbyte : ∀ i, code.get! (offset + i) =
      ((code.data.toList.drop offset)[i]?).getD (default : UInt8) := by
    intro i
    rw [List.getElem?_drop, Array.getElem?_toList, ← Array.getD_eq_getD_getElem?]
    rfl
  have hsize : (code.data.toList.drop offset).length = code.size - offset := by
    rw [List.length_drop, Array.length_toList]
    rfl
  match hbytes : code.data.toList.drop offset with
  | [] | [_] | [_, _] | [_, _, _] =>
      rw [hbytes] at hsize
      rw [fetch?, if_neg (by simp at hsize; omega)]
      rfl
  | a :: b :: c :: d :: rest =>
      rw [hbytes] at hsize
      have hget : code.get! (offset + 0) = a ∧ code.get! (offset + 1) = b ∧
          code.get! (offset + 2) = c ∧ code.get! (offset + 3) = d := by
        simp only [hbyte, hbytes]
        exact ⟨rfl, rfl, rfl, rfl⟩
      obtain ⟨ha, hb, hc, hd⟩ := hget
      rw [fetch?, if_pos (by simp at hsize; omega)]
      simp only [ha, hb, hc, hd]
      rfl

/-- A word is fetched where it stands. -/
theorem fetch?_eq_some_iff :
    fetch? code offset order = some ⟨w⟩ ↔ StandAt order code offset [w] := by
  rw [fetch?_eq, ofImage?_eq_some_iff, StandAt, List.flatMap_singleton]

theorem append_prefix_iff {α : Type} {xs ys zs : List α} :
    xs ++ ys <+: zs ↔ xs <+: zs ∧ ys <+: zs.drop xs.length := by
  constructor
  · rintro ⟨rest, rfl⟩
    refine ⟨⟨ys ++ rest, (List.append_assoc xs ys rest).symm⟩, rest, ?_⟩
    rw [List.append_assoc, List.drop_left]
  · rintro ⟨⟨rest, rfl⟩, hrest⟩
    rw [List.drop_left] at hrest
    exact (List.prefix_append_right_inj xs).mpr hrest

theorem image_length : (image order w).length = 4 := by cases order <;> rfl

theorem standAt_cons :
    StandAt order code offset (w :: words) ↔
      StandAt order code offset [w] ∧ StandAt order code (offset + 4) words := by
  unfold StandAt
  rw [List.flatMap_cons, append_prefix_iff, image_length, List.drop_drop, List.flatMap_singleton]

theorem standAt_append {ws : List (BitVec 32)} :
    StandAt order code offset (ws ++ words) ↔
      StandAt order code offset ws ∧ StandAt order code (offset + 4 * ws.length) words := by
  induction ws generalizing offset with
  | nil => simp [StandAt]
  | cons v vs ih =>
      rw [List.cons_append, standAt_cons, ih, ← and_assoc, ← standAt_cons, List.length_cons,
        show offset + 4 + 4 * vs.length = offset + 4 * (vs.length + 1) by omega]

theorem StandAt.size_le (h : StandAt order code offset words) :
    4 * words.length ≤ code.size - offset := by
  have hlength := h.length_le
  have hsize : code.data.toList.length = code.size := Array.length_toList
  rw [List.length_flatMap, List.length_drop, hsize] at hlength
  simpa only [image_length, List.map_const', List.sum_replicate_nat, Nat.mul_comm] using hlength

end Insn

/-! ## Announcements -/

namespace Hook

/-- The word that names a request. -/
def word : Hook → BitVec 32
  | clientRequest => 0x7C210B78
  | redirectedAddress => 0x7C421378
  | callUnredirected => 0x7C631B78
  | redirectedTable => 0x7C842378
  | inject => 0x7CA52B78

/-- The variants on which the request can be made. -/
def ServedBy (arch : Arch) (h : Hook) : Prop := h = redirectedTable → arch = .ppc64

theorem ofWord?_eq_some_iff {arch : Arch} {w : BitVec 32} {h : Hook} :
    ofWord? arch w = some h ↔ w = h.word ∧ h.ServedBy arch := by
  constructor
  · intro hword
    unfold ofWord? at hword
    split at hword
    next hw => cases hword; exact ⟨hw, nofun⟩
    split at hword
    next hw => cases hword; exact ⟨hw, nofun⟩
    split at hword
    next hw => cases hword; exact ⟨hw, nofun⟩
    split at hword
    next hw =>
      cases hword
      refine ⟨hw.1, fun _ => ?_⟩
      cases arch with
      | ppc32 => exact absurd hw.2 (by decide)
      | ppc64 => rfl
    split at hword
    next hw => cases hword; exact ⟨hw, nofun⟩
    cases hword
  · rintro ⟨rfl, hserved⟩
    cases h with
    | redirectedTable => rw [hserved rfl]; rfl
    | clientRequest | redirectedAddress | callUnredirected | inject => cases arch <;> rfl

end Hook

namespace Announced

variable {order : ByteOrder} {code : ByteArray} {offset : Nat} {arch : Arch}

/-- The announcement stands at `offset`, with the whole word `w` behind it. -/
def Opens (order : ByteOrder) (arch : Arch) (code : ByteArray) (offset : Nat) (w : BitVec 32) :
    Prop :=
  Insn.StandAt order code offset (Hook.preamble arch ++ [w])

theorem startsWith_iff {words : List (BitVec 32)} :
    startsWith code offset order words = true ↔ Insn.StandAt order code offset words := by
  induction words generalizing offset with
  | nil => simp [startsWith, Insn.StandAt]
  | cons w words ih =>
      rw [startsWith, Bool.and_eq_true, ih, beq_iff_eq, Insn.fetch?_eq_some_iff,
        ← Insn.standAt_cons]

theorem opens_iff {w : BitVec 32} :
    Opens order arch code offset w ↔
      startsWith code offset order (Hook.preamble arch) = true ∧
        Insn.fetch? code (offset + 16) order = some ⟨w⟩ := by
  have hlength : 4 * (Hook.preamble arch).length = 16 := by cases arch <;> rfl
  rw [Opens, Insn.standAt_append, hlength, startsWith_iff, Insn.fetch?_eq_some_iff]

theorem Opens.scan_eq {w : BitVec 32} (h : Opens order arch code offset w) :
    scan code offset arch order =
      match Hook.ofWord? arch w with
      | some h => hook h
      | none => unknown ⟨w⟩ := by
  obtain ⟨hstart, hfetch⟩ := opens_iff.mp h
  cases hrequest : Hook.ofWord? arch w with
  | some request => simp only [scan, hstart, hfetch, hrequest, if_true]
  | none => simp only [scan, hstart, hfetch, hrequest, if_true]

theorem scan_absent_iff :
    scan code offset arch order = absent ↔ ∀ w, ¬ Opens order arch code offset w := by
  constructor
  · intro hscan w hopens
    rw [hopens.scan_eq] at hscan
    cases hword : Hook.ofWord? arch w <;> simp [hword] at hscan
  · intro hnone
    rw [scan]
    split
    next hstart =>
      cases hfetch : Insn.fetch? code (offset + 16) order with
      | none => rfl
      | some w => exact absurd (opens_iff.mpr ⟨hstart, hfetch⟩) (hnone w.raw)
    next => rfl

theorem scan_hook_iff {h : Hook} :
    scan code offset arch order = hook h ↔
      Opens order arch code offset h.word ∧ h.ServedBy arch := by
  constructor
  · intro hscan
    by_cases hopens : ∃ w, Opens order arch code offset w
    · obtain ⟨w, hw⟩ := hopens
      rw [hw.scan_eq] at hscan
      cases hword : Hook.ofWord? arch w with
      | none => simp [hword] at hscan
      | some h' =>
          simp only [hword, hook.injEq] at hscan
          subst hscan
          obtain ⟨rfl, hserved⟩ := Hook.ofWord?_eq_some_iff.mp hword
          exact ⟨hw, hserved⟩
    · rw [scan_absent_iff.mpr fun w hw => hopens ⟨w, hw⟩] at hscan
      cases hscan
  · rintro ⟨hopens, hserved⟩
    rw [hopens.scan_eq, Hook.ofWord?_eq_some_iff.mpr ⟨rfl, hserved⟩]

end Announced

/-! ## Code of requests -/

/-- The environment's own code can be staged behind every other, and what the block already has
stays the same. -/
def Injector.Extends (add : Injector) (order : ByteOrder) : Prop :=
  ∀ s, ∃ s', add order s = .ok s' ∧ s'.outer = s.outer

namespace Lift

variable {env : Env} {φ : Prop}

theorem get_check (s : Stage) (offset : Nat) (ty : Ty) : s.check (.get offset ty) = .ok ty := by
  simp [Stage.check, Expr.temps, Expr.check]

/-- Behind every stage, the lifting succeeds or faults. Where `φ` holds it succeeds, and what the
block already has stays the same. -/
def Serves (env : Env) (φ : Prop) (x : Lift Unit) : Prop :=
  ∀ p, (∃ p', exec env p x = (.ok (), p') ∧ (φ → p'.stage.outer = p.stage.outer)) ∨
    ¬ φ ∧ ∃ f p', exec env p x = (.error (.fault f), p')

namespace Serves

theorem of_exec {x : Lift Unit}
    (h : ∀ p, ∃ p', exec env p x = (.ok (), p') ∧ p'.stage.outer = p.stage.outer) :
    Serves env φ x := by
  intro p
  obtain ⟨p', hexec, houter⟩ := h p
  exact .inl ⟨p', hexec, fun _ => houter⟩

theorem seq {x y : Lift Unit} (hx : Serves env φ x) (hy : Serves env φ y) :
    Serves env φ (x >>= fun _ => y) := by
  intro p
  obtain ⟨p₁, hexec₁, houter₁⟩ | ⟨hφ, f, p₁, hexec₁⟩ := hx p
  · rw [exec_bind, hexec₁]
    obtain ⟨p₂, hexec₂, houter₂⟩ | hfault := hy p₁
    · exact .inl ⟨p₂, hexec₂, fun h => (houter₂ h).trans (houter₁ h)⟩
    · exact .inr hfault
  · refine .inr ⟨hφ, f, p₁, ?_⟩
    rw [exec_bind, hexec₁]

theorem give {α : Type} {x : Lift α} {a : α} {f : α → Lift Unit}
    (hx : ∀ p, exec env p x = (.ok a, p)) (hf : Serves env φ (f a)) :
    Serves env φ (x >>= f) := by
  intro p
  rw [exec_bind, hx p]
  exact hf p

theorem logged (severity : Severity) (text : String) :
    Serves env φ (Lift.logged severity text) :=
  of_exec fun _ => ⟨_, rfl, rfl⟩

theorem putSlot {slot : Slot} {q : Layout.Place} {e : Expr}
    (hq : Layout.locate env.layout slot = .ok q) (he : ∀ s : Stage, s.check e = .ok q.ty) :
    Serves env φ (Lift.putSlot slot e) :=
  of_exec fun p => ⟨_, exec_putSlot hq (he p.stage), rfl⟩

theorem jumpTo {e : Expr} {kind : JumpKind}
    (he : ∀ s : Stage, s.check e = .ok env.layout.wordTy) : Serves env φ (Lift.jumpTo e kind) :=
  of_exec fun p => ⟨_, exec_jumpTo (he p.stage), rfl⟩

theorem onStage {add : Injector} (h : φ → add.Extends env.host) :
    Serves env φ (Lift.onStage (add env.host)) := by
  intro p
  cases hadd : add env.host p.stage with
  | ok s =>
      refine .inl ⟨_, exec_onStage hadd, fun hφ => ?_⟩
      obtain ⟨s', hs', houter⟩ := h hφ p.stage
      rw [hadd] at hs'
      cases hs'
      exact houter
  | error f =>
      have hφ : ¬ φ := by
        intro hφ
        obtain ⟨s', hs', -⟩ := h hφ p.stage
        rw [hadd] at hs'
        cases hs'
      refine .inr ⟨hφ, f, p, ?_⟩
      change exec env p (ofExcept (add env.host p.stage) >>= _) = _
      rw [hadd]
      rfl

end Serves

/-- No request is refused. -/
theorem serve_serves (hlayout : env.layout = env.arch) (request : Hook)
    (injector : Option Injector) :
    Serves env (∀ add, injector = some add → add.Extends env.host) (serve request injector) := by
  have himm : ∀ (v : BitVec 64) (s : Stage), s.check (env.imm v) = .ok env.layout.wordTy := by
    intro v s
    rw [hlayout]
    exact env.imm_check s v
  unfold serve
  apply Serves.give fun _ => rfl
  apply Serves.give fun _ => rfl
  cases request with
  | clientRequest => exact .seq (.logged _ _) (.jumpTo (himm _))
  | redirectedAddress | redirectedTable =>
      apply Serves.give fun _ => exec_getSlot rfl
      exact .putSlot (Layout.gpr_eq env.layout (by decide)) fun s => get_check s _ _
  | callUnredirected =>
      apply Serves.seq (.putSlot rfl (himm _))
      apply Serves.give fun _ => exec_getSlot (Layout.gpr_eq env.layout (by decide))
      exact .jumpTo fun s => get_check s _ _
  | inject =>
      have htail : ∀ {x : Lift Unit}, Serves env
          (∀ add, injector = some add → add.Extends env.host) x →
          Serves env (∀ add, injector = some add → add.Extends env.host) (x >>= fun _ => do
            Lift.putSlot SpecialSlot.cmStart (← imm env.cia)
            Lift.putSlot SpecialSlot.cmLen (← imm (.ofNat 64 Hook.length))
            Lift.jumpTo (env.imm (env.cutAddress (env.cia + BitVec.ofNat 64 Hook.length)))
              .invalICache) := by
        intro x hx
        apply Serves.seq hx
        apply Serves.give fun _ => rfl
        apply Serves.seq (.putSlot rfl (himm env.cia))
        apply Serves.give fun _ => rfl
        exact .seq (.putSlot rfl (himm _)) (.jumpTo (himm _))
      cases injector with
      | none => exact htail (.logged _ _)
      | some add => exact htail (.onStage fun h => h add rfl)

end Lift

/-! ## Lifting at a code position -/

namespace Guest

variable {g : Guest} {code code' : ByteArray} {offset offset' : Nat} {w : Insn}
  {cia blockStart : BitVec 64} {block : Block} {l : Lifted} {request : Hook}

variable (w cia blockStart block) in
/-- Serving a request succeeds, unless the environment cannot add its code. -/
theorem attempt_served (hcheck : g.check = .ok ())
    (hscan : Announced.scan code offset g.arch g.info.order = .hook request) :
    (∃ p, g.attempt code offset cia blockStart block w = (.ok (Hook.length, some request), p) ∧
      ((∀ add, g.injector = some add → add.Extends g.host) → p.stage.outer = block.types)) ∨
    ¬ (∀ add, g.injector = some add → add.Extends g.host) ∧
      ∃ f p, g.attempt code offset cia blockStart block w = (.error (.fault f), p) := by
  let env := g.env cia blockStart
  let marked : Progress := { stage := (Stage.start block).mark cia Hook.length 0 }
  have hattempt : g.attempt code offset cia blockStart block w =
      Lift.exec env marked
        (Lift.serve request g.injector >>= fun _ => pure (Hook.length, some request)) := by
    rw [attempt, hscan]
    rfl
  have hlayout : env.layout = env.arch := (supported_of_check hcheck).layout_eq
  rw [hattempt, Lift.exec_bind]
  obtain ⟨p, hserved, houter⟩ | ⟨hinjector, f, p, hserved⟩ :=
    Lift.serve_serves hlayout request g.injector marked
  · rw [hserved]
    exact .inl ⟨p, rfl, houter⟩
  · rw [hserved]
    exact .inr ⟨hinjector, f, p, rfl⟩

/-- A lifting tells the request that stands at its position. -/
theorem lift_hook_iff (hresult : (g.lift code offset cia blockStart block).result = .ok l) :
    l.hook = some request ↔
      Announced.scan code offset g.arch g.info.order = .hook request := by
  obtain ⟨w, hfetch⟩ := fetch_of_lift hresult
  obtain ⟨n, p, hattempt⟩ | ⟨r, p, hattempt, rfl⟩ := attempt_of_lift hfetch hresult
  · have hstands := attempt_hook hattempt
    cases hscan : Announced.scan code offset g.arch g.info.order with
    | absent => simp_all
    | hook h => simp_all
    | unknown v => simp_all
  · constructor
    · intro hnone
      cases hnone
    · intro hscan
      -- A request that stands there is not refused.
      obtain ⟨p, hserved, -⟩ | ⟨-, f, p, hserved⟩ :=
        attempt_served w cia blockStart block (check_of_lift hresult) hscan
      · rw [hattempt] at hserved
        cases hserved
      · rw [hattempt] at hserved
        cases hserved

/-- An announcement without a request is refused. -/
theorem lift_of_unknown (hcheck : g.check = .ok ())
    (hfetch : Insn.fetch? code offset g.info.order = some w) {v : Insn}
    (hscan : Announced.scan code offset g.arch g.info.order = .unknown v) :
    (g.lift code offset cia blockStart block).result = .ok ⟨0, .stop .noDecode, none⟩ := by
  have hattempt : g.attempt code offset cia blockStart block w =
      Lift.exec (g.env cia blockStart) { stage := .start block }
        (Lift.unrecognized v "magic sequence request") := by
    rw [attempt, hscan]
    rfl
  obtain ⟨hresult, -⟩ := lift_of_refusal hcheck hfetch hattempt
  exact hresult

theorem exists_lift (hcheck : g.check = .ok ())
    (hfetch : Insn.fetch? code offset g.info.order = some w)
    (hinjector : ∀ add, g.injector = some add → add.Extends g.host) :
    ∃ l, (g.lift code offset cia blockStart block).result = .ok l := by
  cases hscan : Announced.scan code offset g.arch g.info.order with
  | unknown v => exact ⟨_, lift_of_unknown hcheck hfetch hscan⟩
  | hook request =>
      obtain ⟨p, hattempt, houter⟩ | ⟨hnone, -⟩ :=
        attempt_served w cia blockStart block hcheck hscan
      · obtain ⟨hresult, -⟩ := lift_of_success hcheck hfetch hattempt (houter hinjector)
        exact ⟨_, hresult⟩
      · exact absurd hinjector hnone
  | absent =>
      -- Where nothing is announced, no code is added.
      rw [lift_closed fun hinject => by simp [hscan] at hinject]
      have hcheck' : g.closed.check = .ok () := hcheck
      have hfetch' : Insn.fetch? code offset g.closed.info.order = some w := hfetch
      have hanswers : Answers _ (.empty 0) block _
          (g.closed.lift code offset cia blockStart block) :=
        lift_answers hcheck' rfl hfetch' rfl
      cases hanswers with
      | refused hleft hleft_block hright hright_block => exact ⟨_, hright⟩
      | lifted q q' hook hmarked hending hleft hleft_block hright hright_block => exact ⟨_, hright⟩

/-- The code is read for the word at the position and for what is announced there. -/
theorem lift_eq_of_scan (hfetch : Insn.fetch? code offset g.info.order = some w)
    (hfetch' : Insn.fetch? code' offset' g.info.order = some w)
    (hscan : Announced.scan code offset g.arch g.info.order =
      Announced.scan code' offset' g.arch g.info.order) :
    g.lift code offset cia blockStart block = g.lift code' offset' cia blockStart block := by
  simp only [lift, hfetch, hfetch', hscan]

/-- Requests are recognised exactly. A lifting tells a request where the announcement and the word
of a request that the variant knows stand, and only there; it fails to return only where the
environment fails to add its code. An announcement with any other word behind it is refused.
Everywhere else, the word at the position decides everything that the lifting leaves behind. -/
theorem requests_recognized (g : Guest) (hcheck : g.check = .ok ()) (code : ByteArray)
    (offset : Nat) (hcode : offset + 4 ≤ code.size) (cia blockStart : BitVec 64) (block : Block) :
    (∀ l, (g.lift code offset cia blockStart block).result = .ok l → ∀ request : Hook,
      l.hook = some request ↔
        Insn.StandAt g.info.order code offset (Hook.preamble g.arch ++ [request.word]) ∧
          (request = .redirectedTable → g.arch = .ppc64)) ∧
    ((∀ add, g.injector = some add → add.Extends g.host) →
      ∃ l, (g.lift code offset cia blockStart block).result = .ok l) ∧
    (∀ v, Insn.StandAt g.info.order code offset (Hook.preamble g.arch ++ [v]) →
      (∀ request : Hook, v = request.word → request = .redirectedTable ∧ g.arch = .ppc32) →
      (g.lift code offset cia blockStart block).result = .ok ⟨0, .stop .noDecode, none⟩) ∧
    (∀ v code' offset', Insn.StandAt g.info.order code offset [v] →
      Insn.StandAt g.info.order code' offset' [v] →
      (∀ u, ¬ Insn.StandAt g.info.order code offset (Hook.preamble g.arch ++ [u])) →
      (∀ u, ¬ Insn.StandAt g.info.order code' offset' (Hook.preamble g.arch ++ [u])) →
      g.lift code offset cia blockStart block = g.lift code' offset' cia blockStart block) := by
  obtain ⟨w, hfetch⟩ := fetch?_isSome g.info.order hcode
  refine ⟨?_, ?_, ?_, ?_⟩
  · intro l hresult request
    rw [lift_hook_iff hresult, Announced.scan_hook_iff]
    rfl
  · intro hinjector
    exact exists_lift hcheck hfetch hinjector
  · intro v hopens hunknown
    have hrequest : Hook.ofWord? g.arch v = none := by
      rw [Option.eq_none_iff_forall_ne_some]
      intro request hrequest
      obtain ⟨rfl, hserved⟩ := Hook.ofWord?_eq_some_iff.mp hrequest
      obtain ⟨rfl, harch⟩ := hunknown request rfl
      rw [hserved rfl] at harch
      cases harch
    have hscan : Announced.scan code offset g.arch g.info.order = .unknown ⟨v⟩ := by
      rw [Announced.Opens.scan_eq hopens, hrequest]
    exact lift_of_unknown hcheck hfetch hscan
  · intro v code' offset' hword hword' hnone hnone'
    rw [← Insn.fetch?_eq_some_iff] at hword hword'
    apply lift_eq_of_scan hword hword'
    rw [Announced.scan_absent_iff.mpr hnone, Announced.scan_absent_iff.mpr hnone']

/-- A client request of a little-endian guest, the request for the table pointer on a 32-bit guest,
which has none, and an announcement that the end of the code cuts off. -/
theorem requests_recognized_cut :
    let client : ByteArray := ⟨((Hook.preamble .ppc64 ++ [Hook.clientRequest.word]).flatMap
      (Insn.image .little)).toArray⟩
    let table : ByteArray := ⟨((Hook.preamble .ppc32 ++ [Hook.redirectedTable.word]).flatMap
      (Insn.image .big)).toArray⟩
    let cut : ByteArray := ⟨((Hook.preamble .ppc32).flatMap (Insn.image .big)).toArray⟩
    let rotation : ByteArray := ⟨(Insn.image .big 0x5400183E).toArray⟩
    (∃ l, (Guest.lift { arch := .ppc64, info := { order := .little } } client 0 0x1000 0x1000
      (.empty 0)).result = .ok l ∧ l.hook = some .clientRequest) ∧
    (Guest.lift { arch := .ppc32 } table 0 0x1000 0x1000 (.empty 0)).result =
      .ok ⟨0, .stop .noDecode, none⟩ ∧
    Guest.lift { arch := .ppc32 } cut 0 0x1000 0x1000 (.empty 0) =
      Guest.lift { arch := .ppc32 } rotation 0 0x1000 0x1000 (.empty 0) := by
  intro client table cut rotation
  refine ⟨?_, ?_, ?_⟩
  · obtain ⟨hrequest, hreturns, -⟩ := requests_recognized
      { arch := .ppc64, info := { order := .little } } rfl client 0 (by decide) 0x1000 0x1000
      (.empty 0)
    obtain ⟨l, hresult⟩ := hreturns nofun
    exact ⟨l, hresult, (hrequest l hresult _).mpr ⟨by decide +kernel, nofun⟩⟩
  · obtain ⟨-, -, hunknown, -⟩ := requests_recognized { arch := .ppc32 } rfl table 0 (by decide)
      0x1000 0x1000 (.empty 0)
    apply hunknown Hook.redirectedTable.word (by decide +kernel)
    intro request hword
    cases request with
    | redirectedTable => exact ⟨rfl, rfl⟩
    | clientRequest | redirectedAddress | callUnredirected | inject => cases hword
  · have hcut : ∀ code : ByteArray, code.size < 20 → ∀ u, ¬ Insn.StandAt .big code 0
        (Hook.preamble .ppc32 ++ [u]) := by
      intro code hsize u hstand
      have hlength : 20 ≤ code.size - 0 := hstand.size_le
      omega
    obtain ⟨-, -, -, hlocal⟩ := requests_recognized { arch := .ppc32 } rfl cut 0 (by decide)
      0x1000 0x1000 (.empty 0)
    exact hlocal 0x5400183E rotation 0 (by decide +kernel) (by decide +kernel)
      (hcut cut (by decide)) (hcut rotation (by decide))

end Guest

end PowerLift
