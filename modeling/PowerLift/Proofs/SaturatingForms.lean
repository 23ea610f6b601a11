import PowerLift.Proofs.Saturation

/-!
# Saturating instructions

The saturating sums, differences and packs leave the clamped numbers in their target, and set the
saturation bit where a number was out of range. The bit is sticky: they never clear it.
-/

namespace PowerLift

open Layout (specialOffset)
open Lift (exec)
open Point (Has Knows Step Since)
open PowerLift.Expr (bin)

variable {M : Type} {I : Interp M} {env : Env} {w : Insn} {c : Point M}

namespace Saturating

/-- What a saturating instruction asks of the processor. -/
def gates : Saturating → List Gate
  | pack _ .w32 => [.altivec, .isa207]
  | _ => [.altivec]

/-- The state behind a saturating instruction. -/
def after (arch : Arch) (order : ByteOrder) (w : Insn) (s : Saturating) (σ : GuestState) :
    GuestState :=
  let x := σ.vsr arch order (w.ra + 32)
  let y := σ.vsr arch order (w.rb + 32)
  let old := σ.held arch order .vscr
  (σ.withVsr arch order (w.rd + 32) (s.result x y)).holding arch order .vscr
    (if s.Overflows x y then old ||| 1 else old)

/-- How a saturating instruction is left. -/
def left (env : Env) (I : Interp M) (w : Insn) (s : Saturating) (m : Machine M) : Left M :=
  ⟨env.nia, .boring, m.memory, s.after env.arch I.order w m.state⟩

end Saturating

namespace VectorInteger

/-- The end of a saturating instruction: its target was written, and `v` has a bit set where a
number was out of range. -/
theorem saturating_ends (hI : I.Vectors) (hlayout : env.layout = env.arch)
    (hnext : c.progress.next = .continue) {s : Saturating} {σ : GuestState} {e v : Expr}
    {x y z : BitVec 128} (hx : σ.vsr env.arch I.order (w.ra + 32) = x)
    (hy : σ.vsr env.arch I.order (w.rb + 32) = y) (hstate : c.state = σ)
    (he : c.Has I e ⟨.v128, s.result x y⟩) (hv : ∀ {S}, c.Knows I S v ⟨.v128, z⟩)
    (hz : z ≠ 0 ↔ s.Overflows x y) {memory : M} (hmemory : c.memory = memory) :
    Comes env I c (Lift.putVr w.rd e >>= fun _ => anySet v >>= saturateIf) False
      fun next flow => next = .continue ∧
        env.leave I next flow = ⟨env.nia, .boring, memory, s.after env.arch I.order w σ⟩ := by
  subst hx hy hstate hmemory
  refine .putVr hlayout w.rd_lt he fun c₁ _ hstate₁ hmemory₁ => ?_
  refine .anySet hI hv.since.always fun t c₂ _ hstate₂ hmemory₂ ht => ?_
  refine .last (.saturateIf hI hlayout ht.always fun c₃ _ hstate₃ hmemory₃ => ?_)
  have : Since c c₂ := Since.trans c₁
  refine .done (Since.next_eq hnext) ⟨rfl, ?_⟩
  have hheld : c₂.state.held env.arch I.order .vscr = c.state.held env.arch I.order .vscr := by
    have hrd := w.rd_lt
    rw [hstate₂, hstate₁, GuestState.held_withVsr (by omega)]
  have hflag : (z != 0) = true ↔ s.Overflows _ _ := bne_iff_ne.trans hz
  change (⟨env.nia, .boring, c₃.memory, c₃.state⟩ : Left M) = _
  rw [hmemory₃, hmemory₂, hmemory₁, hstate₃, hheld, hstate₂, hstate₁]
  simp only [hflag]
  rfl

theorem laneOperation_comes (hI : I.Vectors) (hlayout : env.layout = env.arch)
    (hnext : c.progress.next = .continue) (name : String) (s : Sign) (width : Narrow)
    (subtract : Bool) :
    Comes env I c (laneOperation w name (Saturating.operator s width subtract)
        (some (Saturating.modular width subtract))) False
      fun next flow => next = .continue ∧
        env.leave I next flow = Saturating.left env I w (.sum s width subtract) c.machine := by
  refine .noted fun c₁ _ hstate₁ hmemory₁ => ?_
  refine .bindVr hlayout w.ra_lt fun a c₂ _ hstate₂ hmemory₂ ha => ?_
  refine .bindVr hlayout w.rb_lt fun b c₃ _ hstate₃ hmemory₃ hb => ?_
  have ha₃ {S : GuestState → Prop} : c₃.Knows I S a _ := ha.since
  have hresult {S : GuestState → Prop} := ha₃.two hI (Saturating.operator s width subtract)
    (Saturating.meaning_operator s width subtract) (hb (S := S))
  refine .bind hresult.always fun res c₄ _ hstate₄ hmemory₄ hres => ?_
  have : Since c₂ c₄ := Since.trans c₃
  have : Since c c₄ := Since.trans c₁
  have ha₄ {S : GuestState → Prop} : c₄.Knows I S a _ := ha₃.since
  have hmodular {S : GuestState → Prop} := ha₄.two hI (Saturating.modular width subtract)
    (Saturating.meaning_modular s width subtract) (hb.since (S := S))
  exact saturating_ends hI hlayout (Since.next_eq hnext) (hstate₁ ▸ rfl) (hstate₁ ▸ hstate₂ ▸ rfl)
    (hstate₄.trans (hstate₃.trans (hstate₂.trans hstate₁))) hres.always
    (hres.two hI .xor rfl hmodular) Saturating.xor_ne_zero
    (hmemory₄.trans (hmemory₃.trans (hmemory₂.trans hmemory₁)))

theorem pack_comes (hI : I.Vectors) (hlayout : env.layout = env.arch)
    (hnext : c.progress.next = .continue) (name : String) (s : Saturation) (width : Narrow) :
    Comes env I c (pack w name s width) False
      fun next flow => next = .continue ∧
        env.leave I next flow = Saturating.left env I w (.pack s width) c.machine := by
  refine .noted fun c₁ _ hstate₁ hmemory₁ => ?_
  refine .bindVr hlayout w.ra_lt fun a c₂ _ hstate₂ hmemory₂ ha => ?_
  refine .bindVr hlayout w.rb_lt fun b c₃ _ hstate₃ hmemory₃ hb => ?_
  have : Since c₁ c₃ := Since.trans c₂
  have : Since c c₃ := Since.trans c₁
  have ha₃ {S : GuestState → Prop} : c₃.Knows I S a _ := ha.since
  have hresult := ha₃.two hI (.satNarrow s width) (Saturating.meaning_pack s width)
    (hb (S := fun _ => True))
  have houtside {S : GuestState → Prop} := (ha₃.outside hI s width).two hI .or rfl
    ((hb (S := S)).outside hI s width)
  exact saturating_ends hI hlayout (Since.next_eq hnext) (hstate₁ ▸ rfl) (hstate₁ ▸ hstate₂ ▸ rfl)
    (hstate₃.trans (hstate₂.trans hstate₁)) hresult.always houtside Saturation.or_outside_ne_zero
    (hmemory₃.trans (hmemory₂.trans hmemory₁))

section

variable {xo : Nat}

theorem ofXo?_apart {s : Saturating} (hs : Saturating.ofXo? xo = some s) :
    ¬(42 ≤ xo % 64 ∧ xo % 64 ≤ 44) ∧ comparison? (xo % 1024) = none := by
  unfold Saturating.ofXo? at hs
  split at hs <;> cases hs <;> exact ⟨by decide, rfl⟩

theorem ofXo?_sum {s : Sign} {width : Narrow} {subtract : Bool}
    (hs : Saturating.ofXo? xo = some (.sum s width subtract)) :
    ∃ name, laneOperation? xo = some (name, Saturating.operator s width subtract,
      some (Saturating.modular width subtract)) := by
  unfold Saturating.ofXo? at hs
  split at hs <;> cases hs <;> exact ⟨_, rfl⟩

theorem ofXo?_pack {s : Saturation} {width : Narrow}
    (hs : Saturating.ofXo? xo = some (.pack s width)) :
    laneOperation? xo = none ∧ ∃ name, pack? xo = some (name, s, width) := by
  unfold Saturating.ofXo? at hs
  split at hs <;> cases hs <;> exact ⟨rfl, _, rfl⟩

end

theorem lift_twoOperands (hopcode : w.opcode = 4) (hthree : ¬(42 ≤ w.vxXo % 64 ∧ w.vxXo % 64 ≤ 44))
    (hcompare : comparison? (w.vxXo % 1024) = none) : lift w = twoOperands w := by
  simp only [lift, hopcode, w.vaXo_eq, w.vcXo_eq, if_neg hthree, hcompare]

theorem saturating_comes (hI : I.Vectors) (hlayout : env.layout = env.arch)
    (hnext : c.progress.next = .continue) (hopcode : w.opcode = 4) {s : Saturating}
    (hs : Saturating.ofXo? w.vxXo = some s) :
    Comes env I c (lift w) False fun next flow => next = .continue ∧
      env.leave I next flow = s.left env I w c.machine := by
  obtain ⟨hthree, hcompare⟩ := ofXo?_apart hs
  rw [lift_twoOperands hopcode hthree hcompare]
  cases s with
  | sum s width subtract =>
      obtain ⟨name, hlane⟩ := ofXo?_sum hs
      simp only [twoOperands, hlane]
      exact laneOperation_comes hI hlayout hnext name s width subtract
  | pack s width =>
      obtain ⟨hlane, name, hpack⟩ := ofXo?_pack hs
      simp only [twoOperands, hlane, hpack]
      exact pack_comes hI hlayout hnext name s width

end VectorInteger

/-! ## Whole instructions -/

theorem Route.find?_saturating (hopcode : w.opcode = 4) {s : Saturating}
    (hs : Saturating.ofXo? w.vxXo = some s) :
    ∃ pattern, find? w = some ⟨pattern, s.gates, .vectorInteger⟩ := by
  refine find?_of_gates hopcode ?_
  unfold Saturating.ofXo? at hs
  split at hs <;> cases hs
  all_goals
    next hxo =>
      rw [hxo]
      decide

theorem Guest.saturating_performs (g : Guest) (hI : I.Vectors) (hopcode : w.opcode = 4)
    {s : Saturating} (hs : Saturating.ofXo? w.vxXo = some s) :
    g.Performs w I (g.Lacks s.gates) fun cia next m out =>
      next = .continue ∧ out = s.left (g.env cia cia) I w m := by
  obtain ⟨pattern, hroute⟩ := Route.find?_saturating hopcode hs
  refine Guest.performs hroute (by simp [hopcode]) False ((or_iff_left id).trans ?_)
    fun env c hlayout henv hnext => ?_
  · exact Route.closed_iff _ g
  · obtain ⟨cia, blockStart, rfl⟩ := henv
    exact VectorInteger.saturating_comes hI hlayout hnext hopcode hs

end PowerLift
