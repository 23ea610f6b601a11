import PowerLift.Proofs.VectorMoves

/-!
# Vectors rearranged

The vector-scalar forms that rearrange vectors name any of the 64 registers. Each word that
rearranges vectors has a route, asks for what its gates say, and fills its target with what its
operands held before, whichever of them the target is.
-/

namespace PowerLift

open Lift (exec)
open Point (Has Knows Step Since)
open PowerLift.Expr (un bin)

variable {M : Type} {I : Interp M} {env : Env} {w : Insn} {c : Point M}

/-! ## Encodings of vector-scalar forms -/

namespace VectorScalar.Encoding

theorem ofInsn?_select (hxo : w.bits 4 2 = 3) :
    ofInsn? w = some ⟨0x018, .xx4, "xxsel", .select, false⟩ := by
  have hkey : BitVec.ofNat 10 (w.bits 1 10) &&& Form.xx4.mask = Form.xx4.mask := by
    have hopcode (key : BitVec 10) (h : key.toNat / 8 % 4 = 3) :
        key &&& Form.xx4.mask = Form.xx4.mask := by
      revert key
      decide +kernel
    refine hopcode _ ?_
    simp only [Insn.bits, BitVec.extractLsb'_toNat, BitVec.toNat_ofNat] at hxo ⊢
    omega
  simp only [ofInsn?, hkey, if_true]
  decide +kernel

theorem ofInsn?_splatWord (hxo : w.bits 2 9 = 164) :
    ofInsn? w = some ⟨0x148, .xx2, "xxspltw", .splatWord, false⟩ := by
  have hbits : w.bits 1 10 = 328 ∨ w.bits 1 10 = 329 := by
    simp only [Insn.bits, BitVec.extractLsb'_toNat] at hxo ⊢
    omega
  unfold ofInsn?
  rcases hbits with h | h <;> rw [h] <;> decide

theorem bits_eq_of_immediate {xo : Nat} (hxo : w.bits 10 1 = 0 ∧ w.bits 3 5 = xo) :
    ∃ dm < 4, ∃ low < 4, w.bits 1 10 = 128 * dm + 4 * xo + low := by
  refine ⟨w.bits 8 2, w.bits_lt 8 2, w.bits 1 2, w.bits_lt 1 2, ?_⟩
  simp only [Insn.bits, BitVec.extractLsb'_toNat] at hxo ⊢
  omega

theorem ofInsn?_shiftWords (hxo : w.bits 10 1 = 0 ∧ w.bits 3 5 = 2) :
    ofInsn? w = some ⟨0x008, .xx3Imm, "xxsldwi", .shiftWords, false⟩ := by
  obtain ⟨dm, hdm, low, hlow, hbits⟩ := bits_eq_of_immediate hxo
  unfold ofInsn?
  rw [hbits]
  clear hbits
  revert dm low
  decide +kernel

theorem ofInsn?_permuteHalves (hxo : w.bits 10 1 = 0 ∧ w.bits 3 5 = 10) :
    ofInsn? w = some ⟨0x028, .xx3Imm, "xxpermdi", .permuteHalves, false⟩ := by
  obtain ⟨dm, hdm, low, hlow, hbits⟩ := bits_eq_of_immediate hxo
  unfold ofInsn?
  rw [hbits]
  clear hbits
  revert dm low
  decide +kernel

end VectorScalar.Encoding

/-! ## Vector-scalar forms -/

/-- A vector that is put together from halves. -/
theorem append_halves (p q : BitVec 64) :
    (p ++ q : BitVec 128) = ofElements 64 fun i => if i = 0 then p else q := by
  refine eq_ofElements (by decide) fun i hi => BitVec.eq_of_getLsbD_eq fun j hj => ?_
  rw [elementAt, getLsbD_laneAt, decide_eq_true hj, Bool.true_and, BitVec.getLsbD_append]
  obtain rfl | rfl : i = 0 ∨ i = 1 := by omega
  · rw [if_neg (by omega), if_pos rfl]
    exact congrArg p.getLsbD (by omega)
  · rw [if_pos (by omega), if_neg (by decide)]
    exact congrArg q.getLsbD (by omega)

/-- A half of a vector, by the number of the half. -/
theorem Point.Knows.half (hI : I.Vectors) {S : GuestState → Prop} {a : Expr} {x : BitVec 128}
    (ha : c.Knows I S a ⟨.v128, x⟩) {i : Nat} (hi : i < 2) :
    c.Knows I S (.un (.cast (if decide (i = 1) then .lowVto64 else .highVto64)) a)
      ⟨.i64, elementAt 64 x i⟩ := by
  obtain rfl | rfl : i = 0 ∨ i = 1 := by omega
  · exact ha.un rfl (hI.highVto64 x)
  · exact ha.un rfl ((hI.lowVto64 x).trans (elementAt_second x).symm)

namespace VectorScalar

/-- An encoding that neither asks for a version nor has reserved bits. -/
theorem lift_comes {e : Encoding} (he : Encoding.ofInsn? w = some e) (hversion : e.since207 = false)
    (hform : e.form ≠ .xx2) {φ : Prop} {Q : Continuation → Flow M → Prop}
    (hemit : Comes env I c (emit w e.name e.operation) φ Q) : Comes env I c (lift w) φ Q := by
  unfold lift
  simp only [he, hversion, Bool.false_and, Bool.false_eq_true, if_false, if_neg hform]
  exact .give rfl hemit

variable (hI : I.Vectors) (hlayout : env.layout = env.arch) (hnext : c.progress.next = .continue)
include hI hlayout hnext

theorem select_comes (hxo : w.bits 4 2 = 3) :
    Comes env I c (lift w) False (Filled env I w.xt
      (bitSelected (c.state.vsr env.arch I.order w.xa) (c.state.vsr env.arch I.order w.xb)
        (c.state.vsr env.arch I.order w.xc)) c.state c.memory) := by
  refine lift_comes (Encoding.ofInsn?_select hxo) rfl (by decide) ?_
  refine .noted fun c₁ _ hstate₁ hmemory₁ => .give (exec_getVsr hlayout w.xc_lt) ?_
  have hc := Point.knows_vsr_of (I := I) env hstate₁ w.xc
  refine .bind (hc.has hstate₁) fun t c₂ _ hstate₂ hmemory₂ ht => ?_
  refine .give (exec_getVsr hlayout w.xa_lt) (.give (exec_getVsr hlayout w.xb_lt) ?_)
  have : Since c c₂ := Since.trans c₁
  have hstate : c₂.state = c.state := hstate₂.trans hstate₁
  have hvalue := (Point.knows_vsr_of env hstate w.xa).blend hI
    (Point.knows_vsr_of env hstate w.xb) ht
  rw [blended_eq_bitSelected] at hvalue
  exact .fillVsr hlayout (Since.next_eq hnext) hstate (hmemory₂.trans hmemory₁) w.xt_lt
    (hvalue.has hstate)

theorem splatWord_comes (hxo : w.bits 2 9 = 164) :
    Comes env I c (lift w) (w.slice 11 3 ≠ 0) (Filled env I w.xt
      (ofElements 32 fun _ => elementAt 32 (c.state.vsr env.arch I.order w.xb) w.xxUim)
      c.state c.memory) := by
  unfold lift
  simp only [Encoding.ofInsn?_splatWord hxo, Bool.false_and, Bool.false_eq_true, if_false, if_true]
  refine .give rfl ((Comes.guard (Lift.reservedZero_refuses w _ _) fun _ =>
    .noted fun c₁ _ hstate₁ hmemory₁ => ?_).congr (or_iff_left id))
  refine .give (exec_getVsr hlayout w.xb_lt) ?_
  have hb := Point.knows_vsr_of (I := I) env hstate₁ w.xb
  exact .fillVsr hlayout (Since.next_eq hnext) hstate₁ hmemory₁ w.xt_lt
    ((hb.splatElement hI .w32 _).has hstate₁)

theorem shiftWords_comes (hxo : w.bits 10 1 = 0 ∧ w.bits 3 5 = 2) :
    Comes env I c (lift w) False (Filled env I w.xt
      (window 32 (c.state.vsr env.arch I.order w.xa) (c.state.vsr env.arch I.order w.xb) w.xxDm)
      c.state c.memory) := by
  have hn : w.xxDm < 4 := w.bits_lt 8 2
  refine lift_comes (Encoding.ofInsn?_shiftWords hxo) rfl (by decide) ?_
  refine .noted fun c₁ _ hstate₁ hmemory₁ => ?_
  refine .give (exec_getVsr hlayout w.xa_lt) (.give (exec_getVsr hlayout w.xb_lt) ?_)
  have ha := Point.knows_vsr_of (I := I) env hstate₁ w.xa
  have hb := Point.knows_vsr_of (I := I) env hstate₁ w.xb
  refine .fillVsr hlayout (Since.next_eq hnext) hstate₁ hmemory₁ w.xt_lt ?_
  split
  next hzero =>
    rw [hzero, window_zero (by decide)]
    exact ha.has hstate₁
  next hpos => exact (ha.shiftPair hI (by decide) (Nat.pos_of_ne_zero hpos) hn hb).has hstate₁

theorem permuteHalves_comes (hxo : w.bits 10 1 = 0 ∧ w.bits 3 5 = 10) :
    Comes env I c (lift w) False (Filled env I w.xt
      (ofElements 64 fun i =>
        if i = 0 then elementAt 64 (c.state.vsr env.arch I.order w.xa) (w.xxDm / 2)
        else elementAt 64 (c.state.vsr env.arch I.order w.xb) (w.xxDm % 2)) c.state c.memory) := by
  have hn : w.xxDm < 4 := w.bits_lt 8 2
  refine lift_comes (Encoding.ofInsn?_permuteHalves hxo) rfl (by decide) ?_
  refine .noted fun c₁ _ hstate₁ hmemory₁ => ?_
  refine .give (exec_getVsr hlayout w.xa_lt) (.give (exec_getVsr hlayout w.xb_lt) ?_)
  have ha := Point.knows_vsr_of (I := I) env hstate₁ w.xa
  have hb := Point.knows_vsr_of (I := I) env hstate₁ w.xb
  have hvalue := (ha.half hI (show w.xxDm / 2 < 2 by omega)).bin
    (hb.half hI (Nat.mod_lt w.xxDm (by decide))) rfl (hI.cat64toV _ _)
  rw [append_halves] at hvalue
  exact .fillVsr hlayout (Since.next_eq hnext) hstate₁ hmemory₁ w.xt_lt (hvalue.has hstate₁)

end VectorScalar

/-! ## Whole instructions -/

/-- A word has a route with the gates of `mv`, and its lifting refuses it or fills its target as
`mv` says. -/
def Insn.Carries (I : Interp M) (w : Insn) (mv : Movement) : Prop :=
  ∃ pattern family, Route.find? w = some ⟨pattern, mv.gates, family⟩ ∧
    (w.opcode ≠ 21 ∧ w.opcode ≠ 30) ∧
    ∀ (env : Env) (c : Point M), env.layout = env.arch → c.progress.next = .continue →
      Comes env I c (family.lift w) (mv.reserved ≠ 0)
        (Filled env I mv.target (mv.value (c.state.vsr env.arch I.order)) c.state c.memory)

theorem Route.find?_threeOperands (hopcode : w.opcode = 4) (hxo : 42 ≤ w.vaXo ∧ w.vaXo ≤ 44) :
    find? w = some ⟨.va [42, 43, 44], [.altivec], .vectorInteger⟩ := by
  have hcases : w.vaXo = 42 ∨ w.vaXo = 43 ∨ w.vaXo = 44 := by omega
  rw [w.vaXo_eq] at hcases
  rw [find?_vector hopcode]
  rcases hcases with h | h | h <;> simp [ofVxXo, vectors, Pattern.takesVector, h]

theorem Route.find?_permuteXor (hopcode : w.opcode = 4) (hxo : w.vaXo = 45) :
    find? w = some ⟨.va [45], [.altivec, .isa207], .cipher⟩ := by
  rw [w.vaXo_eq] at hxo
  rw [find?_vector hopcode]
  simp [ofVxXo, vectors, Pattern.takesVector, hxo]

namespace VectorInteger

/-- An extended opcode that stands in no table of operations, behind `gates`. -/
structure Untabled (xo : Nat) (gates : List Gate) : Prop where
  three : ¬(42 ≤ xo % 64 ∧ xo % 64 ≤ 44)
  compare : comparison? (xo % 1024) = none
  lane : laneOperation? xo = none
  pack : pack? xo = none
  product : product? xo = none
  route : (Route.ofVxXo xo).map (fun r => (r.gates, r.family)) = some (gates, .vectorInteger)

theorem splat_untabled (width : Narrow) : Untabled width.splatXo [.altivec] := by
  cases width <;> exact ⟨by decide, rfl, rfl, rfl, rfl, rfl⟩

theorem unpack_untabled (width : Narrow) (high : Bool) :
    Untabled (width.unpackXo high) width.gates := by
  cases width <;> cases high <;> exact ⟨by decide, rfl, rfl, rfl, rfl, rfl⟩

theorem whole_untabled {xo : Nat} (hxo : xo ∈ [452, 708, 782, 846, 974, 1036, 1100]) :
    Untabled xo [.altivec] := by
  simp only [List.mem_cons, List.not_mem_nil, or_false] at hxo
  rcases hxo with rfl | rfl | rfl | rfl | rfl | rfl | rfl
  all_goals exact ⟨by decide, rfl, rfl, rfl, rfl, rfl⟩

end VectorInteger

namespace Insn

variable {mv : Movement} {xo : Nat}

theorem carries_threeOperands (hopcode : w.opcode = 4) (hxo : 42 ≤ w.vaXo ∧ w.vaXo ≤ 44)
    (hgates : mv.gates = [.altivec])
    (hcomes : ∀ (env : Env) (c : Point M), env.layout = env.arch → c.progress.next = .continue →
      Comes env I c (VectorInteger.threeOperands w) (mv.reserved ≠ 0)
        (Filled env I mv.target (mv.value (c.state.vsr env.arch I.order)) c.state c.memory)) :
    w.Carries I mv := by
  have hlift : VectorInteger.lift w = VectorInteger.threeOperands w := by
    simp only [VectorInteger.lift, hopcode, if_pos hxo]
  refine ⟨_, .vectorInteger, hgates ▸ Route.find?_threeOperands hopcode hxo, by simp [hopcode], ?_⟩
  rw [Family.lift, hlift]
  exact hcomes

/-- A form that is lifted under a name of its own. -/
theorem carries_otherForm (hopcode : w.opcode = 4) (hxo : w.vxXo = xo)
    (huntabled : VectorInteger.Untabled xo mv.gates) (form : String → Lift Expr)
    (hform : ∃ name, VectorInteger.otherForm w = form name)
    (hcomes : ∀ (name : String) (env : Env) (c : Point M), env.layout = env.arch →
      c.progress.next = .continue → Comes env I c (form name >>= Lift.putVr w.rd) (mv.reserved ≠ 0)
        (Filled env I mv.target (mv.value (c.state.vsr env.arch I.order)) c.state c.memory)) :
    w.Carries I mv := by
  subst hxo
  obtain ⟨name, hform⟩ := hform
  have hlift : VectorInteger.lift w = form name >>= Lift.putVr w.rd := by
    rw [VectorInteger.lift_twoOperands hopcode huntabled.three huntabled.compare]
    simp only [VectorInteger.twoOperands, huntabled.lane, huntabled.pack, huntabled.product, hform]
  obtain ⟨pattern, hroute⟩ := Route.find?_of_gates hopcode huntabled.route
  refine ⟨pattern, _, hroute, by simp [hopcode], ?_⟩
  rw [Family.lift, hlift]
  exact hcomes name

theorem carries_oddProduct (hopcode : w.opcode = 4) (s : Sign) (width : Narrow)
    (hxo : w.vxXo = width.oddProductXo s) (hgates : mv.gates = width.gates)
    (hcomes : ∀ (name : String) (env : Env) (c : Point M), env.layout = env.arch →
      c.progress.next = .continue →
      Comes env I c (VectorInteger.product w name s width true) (mv.reserved ≠ 0)
        (Filled env I mv.target (mv.value (c.state.vsr env.arch I.order)) c.state c.memory)) :
    w.Carries I mv := by
  have hlift : ∃ name, VectorInteger.lift w = VectorInteger.product w name s width true := by
    have hthree : ¬(42 ≤ w.vxXo % 64 ∧ w.vxXo % 64 ≤ 44) := by
      rw [hxo]
      cases width <;> cases s <;> decide
    have hcompare : VectorInteger.comparison? (w.vxXo % 1024) = none := by
      rw [hxo]
      cases width <;> cases s <;> rfl
    rw [VectorInteger.lift_twoOperands hopcode hthree hcompare]
    unfold VectorInteger.twoOperands
    rw [hxo]
    cases width <;> cases s <;> exact ⟨_, rfl⟩
  obtain ⟨name, hlift⟩ := hlift
  have hclosed : (Route.ofVxXo w.vxXo).map (fun r => (r.gates, r.family)) =
      some (mv.gates, .vectorInteger) := by
    rw [hxo, hgates]
    cases width <;> cases s <;> decide +kernel
  obtain ⟨pattern, hroute⟩ := Route.find?_of_gates hopcode hclosed
  refine ⟨pattern, _, hroute, by simp [hopcode], ?_⟩
  rw [Family.lift, hlift]
  exact hcomes name

theorem carries_vectorScalar (hopcode : w.opcode = 60) (hgates : mv.gates = [.vsx])
    (hcomes : ∀ (env : Env) (c : Point M), env.layout = env.arch → c.progress.next = .continue →
      Comes env I c (VectorScalar.lift w) (mv.reserved ≠ 0)
        (Filled env I mv.target (mv.value (c.state.vsr env.arch I.order)) c.state c.memory)) :
    w.Carries I mv :=
  ⟨.any, .vectorScalar, Route.find?_only (by rw [hopcode, hgates]; rfl), by simp [hopcode], hcomes⟩

/-- Every word that rearranges vectors does what is said of it. -/
theorem Moves.carries (h : w.Moves mv) (hI : I.Vectors) : w.Carries I mv := by
  have hnone : False ↔ 0 ≠ 0 := ⟨False.elim, fun h => h rfl⟩
  cases h with
  | select hopcode hxo =>
      exact carries_threeOperands hopcode (by omega) rfl fun env c hlayout hnext =>
        (VectorInteger.select_comes hI hlayout hnext hxo).congr hnone
  | permute hopcode hxo =>
      exact carries_threeOperands hopcode (by omega) rfl fun env c hlayout hnext =>
        (VectorInteger.permute_comes hI hlayout hnext hxo).congr hnone
  | shiftDouble hopcode hxo =>
      exact carries_threeOperands hopcode (by omega) rfl fun env c hlayout hnext =>
        VectorInteger.shiftDouble_comes hI hlayout hnext hxo
  | permuteXor hopcode hxo =>
      have hlift : Cipher.lift w = Cipher.permuteXor w := by
        simp only [Cipher.lift, hxo, if_true]
      refine ⟨_, _, Route.find?_permuteXor hopcode hxo, by simp [hopcode], ?_⟩
      rw [Family.lift, hlift]
      exact fun env c hlayout hnext => (Cipher.permuteXor_comes hI hlayout hnext).congr hnone
  | splat width hopcode hxo =>
      refine carries_otherForm hopcode hxo (VectorInteger.splat_untabled width)
        (VectorInteger.splatElement w · width) ?_ fun name env c hlayout hnext =>
          VectorInteger.splatElement_comes hI hlayout hnext name width
      unfold VectorInteger.otherForm
      rw [hxo]
      cases width <;> exact ⟨_, rfl⟩
  | shiftLeft octets hopcode hxo =>
      have huntabled : VectorInteger.Untabled (if octets then 1036 else 452) [.altivec] :=
        VectorInteger.whole_untabled (by cases octets <;> decide)
      refine carries_otherForm hopcode hxo huntabled
        (VectorInteger.shiftAll w · .shlAll (if octets then 0x78 else 0x7)) ?_
        fun name env c hlayout hnext =>
          (VectorInteger.shiftLeft_comes hI hlayout hnext name octets).congr hnone
      unfold VectorInteger.otherForm
      rw [hxo]
      cases octets <;> exact ⟨_, rfl⟩
  | shiftRight octets hopcode hxo =>
      have huntabled : VectorInteger.Untabled (if octets then 1100 else 708) [.altivec] :=
        VectorInteger.whole_untabled (by cases octets <;> decide)
      refine carries_otherForm hopcode hxo huntabled
        (VectorInteger.shiftAll w · .shrAll (if octets then 0x78 else 0x7)) ?_
        fun name env c hlayout hnext =>
          (VectorInteger.shiftRight_comes hI hlayout hnext name octets).congr hnone
      unfold VectorInteger.otherForm
      rw [hxo]
      cases octets <;> exact ⟨_, rfl⟩
  | oddProduct s width hopcode hxo =>
      exact carries_oddProduct hopcode s width hxo rfl fun name env c hlayout hnext =>
        (VectorInteger.oddProduct_comes hI hlayout hnext name s width).congr hnone
  | unpack width high hopcode hxo =>
      refine carries_otherForm hopcode hxo (VectorInteger.unpack_untabled width high)
        (VectorInteger.unpack w · width high) ?_ fun name env c hlayout hnext =>
          VectorInteger.unpack_comes hI hlayout hnext name width high
      unfold VectorInteger.otherForm
      rw [hxo]
      cases width <;> cases high <;> exact ⟨_, rfl⟩
  | packPixels hopcode hxo =>
      refine carries_otherForm hopcode hxo (VectorInteger.whole_untabled (by decide))
        (fun _ => Lift.listed s!"vpkpx v{w.rd},v{w.ra},v{w.rb}" >>= fun _ =>
          Lift.getVr w.ra >>= fun a => Lift.getVr w.rb >>= VectorInteger.packPixels a) ?_
        fun name env c hlayout hnext => ?_
      · unfold VectorInteger.otherForm
        rw [hxo]
        exact ⟨"", rfl⟩
      · simp only [bind_assoc]
        exact (VectorInteger.packPixels_comes hI hlayout hnext).congr hnone
  | unpackPixels high hopcode hxo =>
      have huntabled : VectorInteger.Untabled (if high then 846 else 974) [.altivec] :=
        VectorInteger.whole_untabled (by cases high <;> decide)
      refine carries_otherForm hopcode hxo huntabled
        (VectorInteger.unpackPixelForm w · high) ?_ fun name env c hlayout hnext =>
          VectorInteger.unpackPixels_comes hI hlayout hnext name high
      unfold VectorInteger.otherForm
      rw [hxo]
      cases high <;> exact ⟨_, rfl⟩
  | selectScalar hopcode hxo =>
      exact carries_vectorScalar hopcode rfl fun env c hlayout hnext =>
        (VectorScalar.select_comes hI hlayout hnext hxo).congr hnone
  | splatScalar hopcode hxo =>
      exact carries_vectorScalar hopcode rfl fun env c hlayout hnext =>
        VectorScalar.splatWord_comes hI hlayout hnext hxo
  | shiftScalar hopcode hxo =>
      exact carries_vectorScalar hopcode rfl fun env c hlayout hnext =>
        (VectorScalar.shiftWords_comes hI hlayout hnext hxo).congr hnone
  | permuteScalar hopcode hxo =>
      exact carries_vectorScalar hopcode rfl fun env c hlayout hnext =>
        (VectorScalar.permuteHalves_comes hI hlayout hnext hxo).congr hnone

end Insn

/-- Permutes, selects, splats, shifts of whole registers, products of odd elements, unpacks and
pixel forms fill their target with what the architecture says, by what their operands held before;
nothing else changes. A word is refused only where the processor lacks an extension or a reserved
field is set. -/
theorem Guest.vectors_move (g : Guest) (hI : I.Vectors) {w : Insn} {mv : Movement}
    (h : w.Moves mv) :
    g.Performs w I (g.Lacks mv.gates ∨ mv.reserved ≠ 0) fun cia next m out =>
      let moved := mv.value (m.state.vsr g.arch I.order)
      next = .continue ∧ out = ⟨(g.env cia cia).nia, .boring, m.memory,
          m.state.withVsr g.arch I.order mv.target moved⟩ ∧
        out.state.vsr g.arch I.order mv.target = moved := by
  obtain ⟨pattern, family, hroute, hopcode, hlift⟩ := h.carries hI
  refine Guest.performs hroute hopcode (mv.reserved ≠ 0) (or_congr_left (Route.closed_iff _ g))
    fun env c hlayout henv hnext => ?_
  obtain ⟨cia, blockStart, rfl⟩ := henv
  refine (hlift _ c hlayout hnext).mono Iff.rfl fun next flow hflow => ?_
  obtain ⟨hcontinue, hleft⟩ := hflow
  exact ⟨hcontinue, hleft, hleft ▸ GuestState.vsr_withVsr _⟩

/-- `vsldoi v1,v1,v2,4` takes the last twelve bytes of its target and the first four of the other
operand. -/
theorem Guest.vectors_move_bytes :
    let g := vectors .little
    let code : ByteArray := ⟨#[0x10, 0x21, 0x11, 0x2C]⟩
    let σ : GuestState := fun o => if Layout.vsrBase .ppc64 + 34 * 16 ≤ o then 0x22 else 0x11
    let out := (g.env 0x1000 0x1000).leave (.vectors .little) .continue
      (runAll (.vectors .little) #[]
        (g.lift code 0 0x1000 0x1000 (.empty 0)).block.stmts.toList (.start () σ))
    out.state.vsr .ppc64 .little 33 = 0x11111111111111111111111122222222 ∧
      out.state.vsr .ppc64 .little 34 = σ.vsr .ppc64 .little 34 := by
  intro g code σ out
  have hfetch : Insn.fetch? code 0 .big = some ⟨0x1021112C⟩ := by decide
  have haccepted : ¬(g.Lacks [.altivec] ∨ (⟨0x1021112C⟩ : Insn).slice 21 1 ≠ 0) := by
    rintro (⟨gate, hgate, hclosed⟩ | hreserved)
    · obtain rfl : gate = .altivec := List.mem_singleton.mp hgate
      revert hclosed
      decide
    · exact hreserved (by decide)
  obtain ⟨next, ss, -, rfl, rfl, hout, hvector⟩ := (Guest.vectors_move g
    (Interp.vectors_vectors .little) (w := ⟨0x1021112C⟩)
    (.shiftDouble (by decide) (by decide))).exists_run (by decide) _ hfetch haccepted 0x1000
      (.start () σ)
  refine ⟨hvector.trans ?_, (congrArg (fun left : Left Unit => left.state.vsr .ppc64 .little 34)
    hout).trans ?_⟩
  · decide +kernel
  · exact GuestState.read_write_disjoint (by decide)

end PowerLift
