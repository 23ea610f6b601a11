import PowerLift.Proofs.FloatTransfers
import PowerLift.Proofs.SpecialMoves

/-!
# Blocks of memory

Cache instructions act on the aligned block that the addressed byte lies in. The size of the block
is a setting of the processor. Block-zeroing instructions tile the block with words; the instruction
that invalidates a line tells its range in the guest state and ends the block of code.
-/

namespace PowerLift

open Point (Knows Since Step)
open Layout (specialOffset)
open Lift (exec)
open PowerLift.Expr (un bin)

variable {M : Type} {I : Interp M} {env : Env} {c : Point M} {w : Insn}

/-! ## Aligned blocks -/

namespace WordMemory

variable {n size : Nat}

/-- The first address of the aligned block of `size` bytes that `a` lies in. -/
def blockBase (size : Nat) (a : BitVec n) : BitVec n := .ofNat n (a.toNat / size * size)

theorem blockBase_toNat (size : Nat) (a : BitVec n) :
    (blockBase size a).toNat = a.toNat / size * size := by
  have hle := Nat.div_mul_le_self a.toNat size
  rw [blockBase, BitVec.toNat_ofNat, Nat.mod_eq_of_lt (by omega)]

/-- The bytes from the base on are those of the block, as no block reaches around the end of the
address space. -/
theorem sub_blockBase_lt (hpos : 0 < size) (hsize : size ∣ 2 ^ n) (a b : BitVec n) :
    (b - blockBase size a).toNat < size ↔ b.toNat / size = a.toNat / size := by
  have hbase := blockBase_toNat size a
  have hfits : a.toNat / size * size + size ≤ 2 ^ n := by
    obtain ⟨blocks, hblocks⟩ := hsize
    have hlt : a.toNat / size < blocks := by
      rw [Nat.div_lt_iff_lt_mul hpos, Nat.mul_comm, ← hblocks]
      exact a.isLt
    rw [hblocks, Nat.mul_comm size, ← Nat.succ_mul]
    exact Nat.mul_le_mul_right size hlt
  have hsame : b.toNat / size = a.toNat / size ↔
      a.toNat / size * size ≤ b.toNat ∧ b.toNat < a.toNat / size * size + size := by
    rw [Nat.div_eq_iff hpos]
    omega
  rw [hsame, ← hbase]
  rw [← hbase] at hfits
  by_cases hle : (blockBase size a).toNat ≤ b.toNat
  · rw [BitVec.toNat_sub_of_le (BitVec.le_def.mpr hle)]
    omega
  · rw [BitVec.toNat_sub_of_lt (BitVec.lt_def.mpr (by omega))]
    omega

/-- The block that values of zero cover. -/
theorem writeAll_zero {bytes : WordMemory n} {order : ByteOrder} {ty : Ty} {a b : BitVec n}
    {count : Nat} (hfit : count * ty.bytes ≤ 2 ^ n) :
    bytes.writeAll order a ty (fun _ => 0) count b =
      if (b - a).toNat < count * ty.bytes then 0 else bytes b := by
  split
  next hinside =>
    have hbytes : 0 < ty.bytes := Nat.pos_of_mul_pos_left (Nat.zero_lt_of_lt hinside)
    have hplace : b = a + .ofNat n ((b - a).toNat / ty.bytes * ty.bytes +
        (b - a).toNat % ty.bytes) := by
      rw [Nat.div_add_mod', BitVec.ofNat_toNat, BitVec.setWidth_eq, BitVec.add_comm,
        BitVec.sub_add_cancel]
    rw [hplace, writeAll_inside hfit ((Nat.div_lt_iff_lt_mul hbytes).mpr hinside)
      (Nat.mod_lt _ hbytes)]
    simp [Value.byteAt]
  next houtside => exact writeAll_outside hfit houtside

end WordMemory

/-- Line sizes are powers of two, and their masks keep all other bits. -/
theorem Processor.lineSize_mask {size : BitVec 32} (h : size ∈ lineSizes) :
    ∃ k, 4 ≤ k ∧ k ≤ 7 ∧ size.toNat = 2 ^ k ∧
      Bits.alignDown (.allOnes 64) (size.setWidth 64) = .ok (~~~.ofNat 64 (2 ^ k - 1)) := by
  simp only [lineSizes, List.mem_cons, List.not_mem_nil, or_false] at h
  obtain rfl | rfl | rfl | rfl := h
  · exact ⟨4, by decide, by decide, rfl, rfl⟩
  · exact ⟨5, by decide, by decide, rfl, rfl⟩
  · exact ⟨6, by decide, by decide, rfl, rfl⟩
  · exact ⟨7, by decide, by decide, rfl, rfl⟩

/-! ## Cache instructions -/

namespace Insn

/-- The words of cache instructions. -/
def CacheForm (w : Insn) : Prop := w.opcode = 31 ∧ w.xo10 ∈ [54, 86, 246, 278, 982, 1014]

/-- A cache instruction sets bits that are reserved. -/
def CacheReserved (w : Insn) : Prop :=
  w.record = true ∨ match w.xo10 with
    | 54 | 982 => w.rd ≠ 0
    | 86 => w.slice 6 3 ≠ 0
    | 1014 => w.slice 6 4 ≠ 0
    | _ => False

instance (w : Insn) : Decidable w.CacheForm := inferInstanceAs (Decidable (_ ∧ _))

end Insn

/-- How many bytes a word zeroes, in its short and its long form. -/
def Processor.zeroedBytes (info : Processor) (w : Insn) : Nat :=
  (if w.slice 10 1 == 1 then info.dcbzlSize else info.dcbzSize).toNat

/-- The line that `a` lies in is told in the guest state. -/
structure GuestState.TellsLine {n : Nat} (arch : Arch) (order : ByteOrder) (size : Nat)
    (a : BitVec n) (σ σ' : GuestState) : Prop where
  start : (σ'.held arch order .cmStart).toNat = a.toNat / size * size
  length : (σ'.held arch order .cmLen).toNat = size
  others : ∀ o, ¬Layout.InSlot arch .cmStart o → ¬Layout.InSlot arch .cmLen o →
    ¬Layout.InSlot arch .cia o → σ' o = σ o

namespace GuestState

variable {arch : Arch} {order : ByteOrder} {σ : GuestState} {s s' : SpecialSlot}

theorem held_holding_of_ne (h : s ≠ s') (x : BitVec (s'.ty arch).bits) :
    (σ.holding arch order s' x).held arch order s = σ.held arch order s :=
  held_congr fun _ ho => holding_apply (ho.ne h) x

theorem tellsLine {n size : Nat} {a : BitVec n} {x : BitVec (SpecialSlot.cmStart.ty arch).bits}
    {y : BitVec (SpecialSlot.cmLen.ty arch).bits} (z : BitVec (SpecialSlot.cia.ty arch).bits)
    (hx : x.toNat = a.toNat / size * size) (hy : y.toNat = size) :
    TellsLine arch order size a σ
      (((σ.holding arch order .cmStart x).holding arch order .cmLen y).holding arch order .cia z)
      where
  start := by
    rw [held_holding_of_ne (by decide), held_holding_of_ne (by decide), held_holding, hx]
  length := by rw [held_holding_of_ne (by decide), held_holding, hy]
  others o hstart hlength hcia := by
    rw [holding_apply hcia, holding_apply hlength, holding_apply hstart]

theorem withAddress_eq_holding (a : BitVec 64) :
    σ.withAddress arch order a = σ.holding arch order .cia (a.setWidth _) := by
  have hty : arch.word.ty = SpecialSlot.cia.ty arch := (Arch.wordTy_eq arch).symm
  rw [withAddress, holding, Value.setWidth_mk hty]

end GuestState

namespace System

open LoadStore (Offset)

/-- The effective address of a cache instruction. -/
abbrev address (env : Env) (I : Interp M) (w : Insn) (σ : GuestState) :
    BitVec env.arch.word.ty.bits :=
  Offset.index.address env.arch I.order w false σ

variable {size : BitVec 32} {φ : Prop} {Q : Continuation → Flow M → Prop}

theorem blockStart_comes (hI : I.Modular) (hlayout : env.layout = env.arch)
    (hsize : size ∈ Processor.lineSizes) {f : Expr → Lift Unit}
    (hf : ∀ t c' [Step c c'], c'.state = c.state → c'.memory = c.memory →
      (∀ {S}, c'.Knows I S t ⟨env.arch.word.ty,
        WordMemory.blockBase size.toNat (address env I w c.state)⟩) → Comes env I c' (f t) φ Q) :
    Comes env I c (blockStart w size >>= f) φ Q := by
  obtain ⟨k, -, hk, hpow, hmask⟩ := Processor.lineSize_mask hsize
  have hwidth : k ≤ env.arch.word.ty.bits ∧ env.arch.word.ty.bits ≤ 64 := by
    obtain h | h := env.arch.word_bits <;> omega
  obtain ⟨ea, hexec, hea⟩ := LoadStore.ea_knows (c := c) hI hlayout w false .index
  have hmasked := hea.and (Point.knows_imm (~~~BitVec.ofNat 64 (2 ^ k - 1))) hI.toBitwise
  have hbase : address env I w c.state &&& (~~~BitVec.ofNat 64 (2 ^ k - 1)).setWidth _ =
      WordMemory.blockBase size.toNat (address env I w c.state) := by
    apply BitVec.eq_of_toNat_eq
    rw [BitVec.setWidth_not hwidth.2, BitVec.setWidth_ofNat_of_le hwidth.2,
      toNat_and_high _ hwidth.1, WordMemory.blockBase_toNat, hpow]
  rw [hbase] at hmasked
  unfold blockStart
  simp only [hmask, bind_assoc]
  refine .give hexec (.give rfl (.give rfl (.give rfl (.bind (hmasked.has rfl) ?_))))
  intro t c' _ hstate hmemory ht
  exact hf t c' hstate hmemory ht

section

variable {view : M → WordMemory env.arch.word.ty.bits} (hview : I.Wordwise env.arch view)
  (hI : I.Modular) (hlayout : env.layout = env.arch) (hsize : size ∈ Processor.lineSizes)
  (hnext : c.progress.next = .continue)

include hview hI hlayout hsize hnext

theorem zeroBlock_comes :
    Comes env I c (zeroBlock w size) False fun next flow => next = .continue ∧
      ∃ m, flow = .behind m ∧ m.state = c.state ∧ ∀ b, view m.memory b =
        if b.toNat / size.toNat = (address env I w c.state).toNat / size.toNat then 0
        else view c.memory b := by
  obtain ⟨k, hlow, hhigh, hpow, -⟩ := Processor.lineSize_mask hsize
  have hdvd : size.toNat ∣ 2 ^ env.arch.word.ty.bits := by
    rw [hpow]
    refine Nat.pow_dvd_pow 2 ?_
    obtain h | h := env.arch.word_bits <;> omega
  have hpos : 0 < size.toNat := by
    rw [hpow]
    exact Nat.two_pow_pos k
  -- The words fill the block, as their width divides its size.
  have hfill : (size.toNat + env.arch.wordBytes - 1) / env.arch.wordBytes *
      env.arch.word.ty.bytes = size.toNat := by
    have hbytes : env.arch.wordBytes = 4 ∨ env.arch.wordBytes = 8 := by
      cases env.arch
      · exact .inl rfl
      · exact .inr rfl
    have hk : k = 4 ∨ k = 5 ∨ k = 6 ∨ k = 7 := by omega
    rw [GuestState.wordBytes_eq, hpow]
    obtain h | h := hbytes <;> rw [h] <;> obtain rfl | rfl | rfl | rfl := hk <;> rfl
  unfold zeroBlock
  refine blockStart_comes hI hlayout hsize fun base c₁ _ hstate₁ hmemory₁ hbase => .give rfl ?_
  refine .last (.repeated (W := fun _ => _)
    (P := fun i c' => c'.state = c.state ∧ view c'.memory = (view c.memory).writeAll env.host
      (WordMemory.blockBase size.toNat (address env I w c.state)) env.arch.word.ty
      (fun _ => 0) i) ?_ ?_ ?_)
  · rintro i - c' _ f' ⟨hstate, hbytes⟩ hf
    obtain ⟨addr, hexec, haddr⟩ := Multiple.addrPlus_knows (c := c') hI hbase.since
      (i * env.arch.wordBytes)
    have hzero : c'.Has I (env.imm 0) ⟨env.arch.word.ty, 0⟩ :=
      (Point.knows_imm 0).always.congr (congrArg (Value.mk _) (BitVec.setWidth_zero _ _))
    rw [bind_assoc]
    refine .give hexec ?_
    rw [bind_assoc]
    refine .give rfl (.storePiece hview env.arch.word_ty_ne_i1 hbytes haddr.always
      (by rw [GuestState.wordBytes_eq]) hzero fun c'' _ hstate' hbytes' => ?_)
    have : Since c₁ c'' := .trans c'
    exact hf c'' ⟨hstate'.trans hstate, hbytes'⟩
  · rintro c' _ ⟨hstate, hbytes⟩
    have : Since c c' := .trans c₁
    refine .done (Since.next_eq hnext) ⟨rfl, c'.machine, rfl, hstate, fun b => ?_⟩
    have hfit : size.toNat ≤ 2 ^ env.arch.word.ty.bits := Nat.le_of_dvd (Nat.two_pow_pos _) hdvd
    rw [show view c'.machine.memory = _ from hbytes,
      WordMemory.writeAll_zero (hfill.symm ▸ hfit), hfill]
    simp only [WordMemory.sub_blockBase_lt hpos hdvd]
  · exact ⟨hstate₁, by rw [hmemory₁]; rfl⟩

end

/-- A barrier. -/
theorem fence_comes {f : Unit → Lift Unit}
    (hf : ∀ c' [Step c c'], c'.state = c.state → c'.memory = I.fence c.memory →
      Comes env I c' (f ()) φ Q) : Comes env I c (fence >>= f) φ Q := by
  let c' : Point M := ⟨{ c.progress with stage := c.stage.push .fence },
    { c.machine with memory := I.fence c.memory }, c.level⟩
  have : Step c c' := ⟨rfl, ⟨c.level, Nat.le_refl _, fun _ _ h => h⟩, fun _ _ _ => rfl⟩
  have hgoes : Point.Goes env I c fence () c' :=
    ⟨Lift.exec_onStage rfl, [.fence], Stage.push_stmts _, fun _ => rfl⟩
  exact .goes hgoes (hf c' rfl rfl)

theorem invalidateLine_comes (hI : I.Modular) (hlayout : env.layout = env.arch)
    (hsize : env.info.icacheLineSize ∈ Processor.lineSizes) :
    Comes env I c (invalidateLine w) False fun next flow => next = .stop .invalICache ∧
      ∃ σ, env.leave I next flow = ⟨env.nia, .invalICache, I.fence c.memory, σ⟩ ∧
        GuestState.TellsLine env.arch I.order env.info.icacheLineSize.toNat
          (address env I w c.state) c.state σ := by
  have hstart : env.arch.word.ty = SpecialSlot.cmStart.ty env.arch := (Arch.wordTy_eq env.arch).symm
  have hlength : env.arch.word.ty = SpecialSlot.cmLen.ty env.arch := (Arch.wordTy_eq env.arch).symm
  have hkept : ∀ {τ : Ty} (x : BitVec env.arch.word.ty.bits), env.arch.word.ty = τ →
      (x.setWidth τ.bits).toNat = x.toNat := by
    rintro τ x rfl
    rw [BitVec.setWidth_eq]
  unfold invalidateLine
  refine .give rfl (blockStart_comes hI hlayout hsize fun base c₁ _ hstate₁ hmemory₁ hbase => ?_)
  refine .putHeld hlayout hbase.always (Value.mk_setWidth hstart _) fun c₂ _ hstate₂ hmemory₂ => ?_
  have hline : c₂.Has I (env.imm (env.info.icacheLineSize.setWidth 64)) _ :=
    (Point.knows_imm _).always
  refine .give rfl (.putHeld hlayout hline (Value.mk_setWidth hlength _)
    fun c₃ _ hstate₃ hmemory₃ => fence_comes fun c₄ _ hstate₄ hmemory₄ => ?_)
  have hnia : c₄.Has I (env.imm env.nia) _ := (Point.knows_imm env.nia).always
  have hmemory : c₄.memory = I.fence c.memory := by rw [hmemory₄, hmemory₃, hmemory₂, hmemory₁]
  have hbits : env.arch.word.ty.bits = 32 ∨ env.arch.word.ty.bits = 64 := env.arch.word_bits
  have hline : ((env.info.icacheLineSize.setWidth 64).setWidth env.arch.word.ty.bits).toNat =
      env.info.icacheLineSize.toNat := by
    have hlt := env.info.icacheLineSize.isLt
    rw [BitVec.toNat_setWidth, BitVec.toNat_setWidth]
    obtain h | h := hbits <;> rw [h] <;> omega
  unfold Lift.stopAtNext
  refine .give rfl (.give rfl (.jumpTo hlayout JumpKind.noConfusion hnia ?_))
  refine ⟨rfl, c₄.state.withAddress env.arch I.order env.nia, ?_, ?_⟩
  · refine (Env.leave_stop hlayout .invalICache env.nia c₄.machine).trans ?_
    rw [Env.exitTo, show env.cutAddress env.nia = env.nia from env.cutAddress_cut _]
    exact congrArg (fun memory => (⟨_, _, memory, _⟩ : Left M)) hmemory
  · rw [GuestState.withAddress_eq_holding, hstate₄, hstate₃, hstate₂, hstate₁]
    exact GuestState.tellsLine _ ((hkept _ hstart).trans (WordMemory.blockBase_toNat _ _))
      ((hkept _ hlength).trans hline)

end System

/-- How a cache instruction leaves the machine `m`. -/
structure System.CacheDone (env : Env) (I : Interp M)
    (view : M → WordMemory env.arch.word.ty.bits) (w : Insn) (m : Machine M) (next : Continuation)
    (out : Left M) : Prop where
  zeroes : w.xo10 = 1014 → next = .continue ∧ ∃ memory,
    out = ⟨env.nia, .boring, memory, m.state⟩ ∧ ∀ b, view memory b =
      if b.toNat / env.info.zeroedBytes w =
        (address env I w m.state).toNat / env.info.zeroedBytes w then 0 else view m.memory b
  invalidates : w.xo10 = 982 → next = .stop .invalICache ∧ ∃ memory σ,
    out = ⟨env.nia, .invalICache, memory, σ⟩ ∧ view memory = view m.memory ∧
      GuestState.TellsLine env.arch I.order env.info.icacheLineSize.toNat
        (address env I w m.state) m.state σ
  rests : w.xo10 ≠ 1014 → w.xo10 ≠ 982 →
    next = .continue ∧ out = ⟨env.nia, .boring, m.memory, m.state⟩

namespace System

section

variable {view : M → WordMemory env.arch.word.ty.bits} {Q : Continuation → Flow M → Prop}

/-- A field that must be zero is all that the word may be refused for. -/
theorem field_comes {field : Nat} {what : String} {f : Unit → Lift Unit}
    (hf : Comes env I c (f ()) False Q) :
    Comes env I c (Lift.reservedZero w field what >>= f) (field ≠ 0) Q :=
  (Comes.guard (Lift.reservedZero_refuses w _ _) fun _ => hf).congr (iff_of_eq (or_false _))

/-- Flushes and hints. -/
theorem hint_comes (hnext : c.progress.next = .continue) (hzero : w.xo10 ≠ 1014)
    (hline : w.xo10 ≠ 982) {line : String} :
    Comes env I c (Lift.listed line) False fun next flow =>
      CacheDone env I view w c.machine next (env.leave I next flow) := by
  refine .last (.listed fun c' _ hmachine => .done (Since.next_eq hnext) ?_)
  rw [hmachine]
  exact ⟨fun h => absurd h hzero, fun h => absurd h hline, fun _ _ => ⟨rfl, rfl⟩⟩

theorem cache_comes (hview : I.Wordwise env.arch view)
    (hfence : ∀ memory, view (I.fence memory) = view memory) (hI : I.Modular)
    (hlayout : env.layout = env.arch) (hzeroed : env.info.dcbzSize ∈ Processor.lineSizes)
    (hzeroed' : env.info.dcbzlSize ∈ Processor.lineSizes)
    (hline : env.info.icacheLineSize ∈ Processor.lineSizes)
    (hnext : c.progress.next = .continue) (hxo : w.xo10 ∈ [54, 86, 246, 278, 982, 1014]) :
    Comes env I c (cache w) w.CacheReserved fun next flow =>
      CacheDone env I view w c.machine next (env.leave I next flow) := by
  unfold cache Insn.CacheReserved
  refine .guard (Lift.reservedClear_refuses w _ _) fun _ => ?_
  simp only [List.mem_cons, List.not_mem_nil, or_false] at hxo
  obtain hxo | hxo | hxo | hxo | hxo | hxo := hxo
  · simp only [hxo]
    exact field_comes (hint_comes hnext (by simp [hxo]) (by simp [hxo]))
  · simp only [hxo]
    exact field_comes (hint_comes hnext (by simp [hxo]) (by simp [hxo]))
  · simp only [hxo]
    exact hint_comes hnext (by simp [hxo]) (by simp [hxo])
  · simp only [hxo]
    exact hint_comes hnext (by simp [hxo]) (by simp [hxo])
  · simp only [hxo]
    refine field_comes (.listed fun c' _ hmachine => ?_)
    refine (invalidateLine_comes hI hlayout hline).mono Iff.rfl ?_
    rintro next flow ⟨hstop, σ, hleft, htold⟩
    rw [show c'.memory = c.machine.memory from congrArg Machine.memory hmachine] at hleft
    rw [show c'.state = c.machine.state from congrArg Machine.state hmachine] at htold
    exact ⟨fun h => absurd (hxo.symm.trans h) (by decide),
      fun _ => ⟨hstop, _, σ, hleft, hfence _, htold⟩, fun _ h => absurd hxo h⟩
  · simp only [hxo]
    refine field_comes (.listed fun c' _ hmachine => .give rfl ?_)
    have hsize : (if w.slice 10 1 == 1 then env.info.dcbzlSize else env.info.dcbzSize) ∈
        Processor.lineSizes := by
      split
      · exact hzeroed'
      · exact hzeroed
    refine (zeroBlock_comes hview hI hlayout hsize (Since.next_eq hnext)).mono Iff.rfl ?_
    rintro next flow ⟨rfl, m, rfl, hstate, hbytes⟩
    rw [show c'.state = c.machine.state from congrArg Machine.state hmachine] at hstate hbytes
    rw [show c'.memory = c.machine.memory from congrArg Machine.memory hmachine] at hbytes
    refine ⟨fun _ => ⟨rfl, m.memory, ?_, fun b => ?_⟩,
      fun h => absurd (hxo.symm.trans h) (by decide), fun h => absurd hxo h⟩
    · exact congrArg (fun σ => (⟨env.nia, .boring, m.memory, σ⟩ : Left M)) hstate
    · exact hbytes b

end

end System

/-- Cache instructions act on the aligned block that the addressed byte lies in. Those that zero it
write nothing else, the one that invalidates a line tells it and ends the block of code, and the
others do nothing. -/
theorem Guest.cache_blocks (g : Guest) {view : M → WordMemory g.arch.word.ty.bits} (hI : I.Modular)
    (hview : I.Wordwise g.arch view) (hfence : ∀ memory, view (I.fence memory) = view memory)
    (hform : w.CacheForm) :
    g.Performs w I w.CacheReserved fun cia next m out =>
      System.CacheDone (g.env cia cia) I view w m next out := by
  intro code offset cia blockStart block m hcheck
  have hsupported := supported_of_check hcheck
  obtain ⟨hopcode, hxo⟩ := hform
  have hroutes : ∀ xo ∈ [54, 86, 246, 278, 982, 1014], Route.ofXo10 xo =
      some ⟨.xo10 [54, 62, 86, 246, 278, 339, 371, 467, 598, 854, 982, 1014], [], .system⟩ := by
    decide +kernel
  have hperforms : g.Performs w I w.CacheReserved fun cia next m out =>
      System.CacheDone (g.env cia cia) I view w m next out := by
    refine Guest.performs ((Route.find?_register hopcode).trans (hroutes _ hxo)) (by omega)
      w.CacheReserved (or_iff_right (Route.not_closed g)) fun env c hlayout henv hnext => ?_
    obtain ⟨cia, blockStart, rfl⟩ := henv
    have hlift : System.lift w = System.cache w := by
      simp only [List.mem_cons, List.not_mem_nil, or_false] at hxo
      rw [System.lift, hopcode]
      obtain hxo | hxo | hxo | hxo | hxo | hxo := hxo <;> rw [hxo] <;> rfl
    change Comes _ I c (System.lift w) _ _
    rw [hlift]
    refine (System.cache_comes hview hfence hI hlayout hsupported.dcbz_size hsupported.dcbzl_size
      hsupported.icache_size hnext hxo).mono Iff.rfl ?_
    exact fun next flow h => ⟨h.zeroes, h.invalidates, h.rests⟩
  exact hperforms code offset cia blockStart block m hcheck

/-- With 71 in a register, the word `dcbz r3,r4` zeroes the 32 bytes from address 64 on. -/
theorem Guest.cache_blocks_zero :
    let g : Guest := { arch := .ppc64, host := .big }
    let start : Machine Interp.Reserved :=
      .start ⟨fun _ => 0xFF, false⟩ fun o => if o = 39 then 71 else 0
    ∃ next ss, (g.lift ⟨#[0x7C, 0x03, 0x27, 0xEC]⟩ 0 0x1000 0x1000 (.empty 0)).block.stmts.toList
        = ss ∧
      ∀ b, ((g.env 0x1000 0x1000).leave (.scalar .big) next
        (runAll (.scalar .big) #[] ss start)).memory.bytes b =
          if b.toNat / 32 = 2 then 0 else 0xFF := by
  intro g start
  have hI := (Interp.scalar_scalar .big).toIntegral.toModular
  have hview := (Interp.scalar_bytewise .big).wordwise
  have hclear : ¬Insn.CacheReserved ⟨0x7C0327EC⟩ :=
    not_or.mpr ⟨by decide, fun h : Insn.slice ⟨0x7C0327EC⟩ 6 4 ≠ 0 => h rfl⟩
  obtain ⟨next, ss, -, hstmts, hdone⟩ :=
    (g.cache_blocks (w := ⟨0x7C0327EC⟩) hI hview (fun _ => rfl) (by decide)).exists_run (by decide)
      ⟨#[0x7C, 0x03, 0x27, 0xEC]⟩ (by decide) hclear 0x1000 start
  obtain ⟨-, memory, hout, hbytes⟩ := hdone.zeroes (by decide)
  have hblock : (System.address (g.env 0x1000 0x1000) (.scalar .big) ⟨0x7C0327EC⟩
      start.state).toNat / 32 = 2 := by decide +kernel
  refine ⟨next, ss, hstmts, fun b => ?_⟩
  rw [hout, ← hblock]
  exact hbytes b

end PowerLift
