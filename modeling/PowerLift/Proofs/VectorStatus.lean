import PowerLift.Proofs.VectorFrames

/-!
# The vector status

A vector instruction of integers sets the saturation bit where one of its numbers is out of range,
and nowhere else. Instructions that do not saturate leave the vector status as it is.
-/

namespace PowerLift

open Layout (specialOffset)

variable {M : Type} {I : Interp M} {w : Insn}

/-- What a word saturates, if it does. -/
def Insn.saturating? (w : Insn) : Option Saturating :=
  if w.opcode = 4 then Saturating.ofXo? w.vxXo else none

theorem Insn.saturating?_eq_some {s : Saturating} :
    w.saturating? = some s ↔ w.opcode = 4 ∧ Saturating.ofXo? w.vxXo = some s := by
  simp [saturating?]

theorem Insn.saturating?_eq_none :
    w.saturating? = none ↔ (w.opcode = 4 → Saturating.ofXo? w.vxXo = none) := by
  simp [saturating?]

/-- The opcodes under which a request can hide belong to rotates. -/
theorem Route.opcode_ne {route : Route} (hroute : find? w = some route)
    (hfamily : route.family = .vectorInteger) : w.opcode ≠ 21 ∧ w.opcode ≠ 30 := by
  have hmem : route ∈ ofOpcode w.opcode := List.mem_of_find?_eq_some hroute
  constructor <;> intro hopcode <;> rw [hopcode] at hmem
  · obtain rfl : route = ⟨.any, [], .rotate⟩ := List.mem_singleton.mp hmem
    cases hfamily
  · obtain rfl : route = ⟨.any, [.mode64], .rotate⟩ := List.mem_singleton.mp hmem
    cases hfamily

namespace Saturating

variable {arch : Arch} {order : ByteOrder} (s : Saturating) (σ : GuestState)

theorem held_after : (s.after arch order w σ).held arch order .vscr =
    let old := σ.held arch order .vscr
    if s.Overflows (σ.vsr arch order (w.ra + 32)) (σ.vsr arch order (w.rb + 32)) then old ||| 1
    else old :=
  GuestState.held_holding _

theorem vsr_after : (s.after arch order w σ).vsr arch order (w.rd + 32) =
    s.result (σ.vsr arch order (w.ra + 32)) (σ.vsr arch order (w.rb + 32)) := by
  have hrd := w.rd_lt
  rw [after, GuestState.vsr_holding (by omega)]
  exact GuestState.vsr_withVsr _

end Saturating

/-- The saturation bit is set exactly where a vector instruction of integers saturates. The 21 that
can do so clamp their numbers, leave the clamped ones in their target, and set the bit where a
number was out of range; nothing else changes. Wherever a word of another one stands, it leaves the
vector status as it is. -/
theorem Guest.saturation_flagged (g : Guest) (hI : I.Vectors) :
    (∀ w s, w.saturating? = some s →
      g.Performs w I (g.Lacks s.gates) fun cia next m out =>
        let x := m.state.vsr g.arch I.order (w.ra + 32)
        let y := m.state.vsr g.arch I.order (w.rb + 32)
        let old := m.state.held g.arch I.order .vscr
        next = .continue ∧ out = s.left (g.env cia cia) I w m ∧
          out.state.held g.arch I.order .vscr = (if s.Overflows x y then old ||| 1 else old) ∧
          out.state.vsr g.arch I.order (w.rd + 32) = s.result x y) ∧
    ∀ w : Insn, w.family? = some .vectorInteger → w.saturating? = none →
      ∃ refused, g.Performs w I refused fun _ _ m out =>
        out.state.held g.arch I.order .vscr = m.state.held g.arch I.order .vscr := by
  constructor
  · intro w s hs
    obtain ⟨hopcode, hxo⟩ := Insn.saturating?_eq_some.mp hs
    refine (Guest.saturating_performs g hI hopcode hxo).mono fun cia next m out hleft => ?_
    obtain ⟨hnext, rfl⟩ := hleft
    exact ⟨hnext, rfl, s.held_after m.state, s.vsr_after m.state⟩
  · intro w hfamily hs
    obtain ⟨route, hroute, hfamily⟩ := Option.map_eq_some_iff.mp hfamily
    obtain ⟨φ, hlift⟩ := VectorInteger.lift_spares hI .vscr (Insn.saturating?_eq_none.mp hs)
    refine ⟨_, Guest.performs_sparing hroute (Route.opcode_ne hroute hfamily) (φ := φ) ?_⟩
    rw [hfamily]
    exact hlift

/-- From a state in which the vector status alone is zero, `vaddubs v3,v1,v2` sets the saturation
bit, and `vaddubm v3,v1,v2` does not. -/
theorem Guest.saturation_flagged_bytes :
    let g := vectors .little
    let σ : GuestState := fun o =>
      if specialOffset .ppc64 .vscr ≤ o ∧ o < specialOffset .ppc64 .vscr + 4 then 0 else 0xFF
    let after (code : ByteArray) := ((g.env 0x1000 0x1000).leave (.vectors .little) .continue
      (runAll (.vectors .little) #[]
        (g.lift code 0 0x1000 0x1000 (.empty 0)).block.stmts.toList (.start () σ))).state
    (after ⟨#[0x10, 0x61, 0x12, 0x00]⟩).held .ppc64 .little .vscr = 1 ∧
      (after ⟨#[0x10, 0x61, 0x12, 0x00]⟩).vsr .ppc64 .little 35 = .allOnes 128 ∧
      (after ⟨#[0x10, 0x61, 0x10, 0x00]⟩).held .ppc64 .little .vscr = 0 := by
  intro g σ after
  obtain ⟨hsaturating, hother⟩ := Guest.saturation_flagged g (Interp.vectors_vectors .little)
  have hfetch : Insn.fetch? ⟨#[0x10, 0x61, 0x12, 0x00]⟩ 0 .big = some ⟨0x10611200⟩ := by decide
  have hfetch' : Insn.fetch? ⟨#[0x10, 0x61, 0x10, 0x00]⟩ 0 .big = some ⟨0x10611000⟩ := by decide
  have hopen : ¬g.Lacks (Saturating.sum .unsigned .w8 false).gates := by
    rintro ⟨gate, hgate, hclosed⟩
    obtain rfl : gate = .altivec := List.mem_singleton.mp hgate
    revert hclosed
    decide
  have hones : σ.vsr .ppc64 .little 33 = .allOnes 128 ∧ σ.vsr .ppc64 .little 34 = .allOnes 128 := by
    decide +kernel
  have hzero : (σ.held .ppc64 .little .vscr).toNat = 0 := by decide +kernel
  have hold : σ.held .ppc64 .little .vscr = 0#32 := BitVec.eq_of_toNat_eq hzero
  have hoverflows : (Saturating.sum .unsigned .w8 false).Overflows (σ.vsr .ppc64 .little 33)
      (σ.vsr .ppc64 .little 34) := by
    rw [hones.1, hones.2]
    decide +kernel
  obtain ⟨next, ss, -, rfl, rfl, -, hheld, hvector⟩ :=
    (hsaturating ⟨0x10611200⟩ _ (by decide)).exists_run (by decide) _ hfetch hopen 0x1000
      (.start () σ)
  -- What the other word is refused for is not said, but it is accepted.
  obtain ⟨refused, hperforms⟩ := hother ⟨0x10611000⟩ (by decide +kernel) (by decide)
  obtain ⟨l, ss, hresult, hstmts, hrefused, hleft⟩ :=
    hperforms _ 0 0x1000 0x1000 (.empty 0) (.start () σ) (by decide) hfetch'
  refine ⟨hheld.trans ((if_pos hoverflows).trans (congrArg (· ||| 1#32) hold)),
    hvector.trans ?_, ?_⟩
  · have hresult : (Saturating.sum .unsigned .w8 false).result (.allOnes 128) (.allOnes 128) =
        .allOnes 128 := by decide +kernel
    exact (congrArg₂ _ hones.1 hones.2).trans hresult
  · have haccepted : l = ⟨4, .continue, none⟩ := by
      have hlift : (g.lift ⟨#[0x10, 0x61, 0x10, 0x00]⟩ 0 0x1000 0x1000 (.empty 0)).result =
          .ok ⟨4, .continue, none⟩ := by decide +kernel
      exact Except.ok.inj (hresult.symm.trans hlift)
    subst haccepted
    obtain rfl : _ = ss := hstmts
    exact ((hleft (mt hrefused.mpr Bool.false_ne_true)).2 #[]).trans hold

end PowerLift
