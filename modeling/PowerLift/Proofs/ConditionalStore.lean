import PowerLift.Family.Reservation
import PowerLift.Proofs.Access
import PowerLift.Proofs.OpenTemporary
import PowerLift.Proofs.Routes

/-!
# Conditional stores

A store under a reservation tells in condition field 0 whether it was carried out. Stores of up to a
doubleword are carried out as a whole or not at all. Of a quadword only the high doubleword is
stored under the reservation: the low one is stored in any case.
-/

namespace PowerLift

open Lift (Does Leads exec putSlot)
open PowerLift.Expr (un bin)

variable {M : Type} {I : Interp M} {env : Env} {p : Progress} {m m' : Machine M} {w : Insn}

/-! ## The store under a reservation -/

/-- What a conditional store does to a machine, with its outcome in a temporary. -/
def Machine.storeConditional (I : Interp M) (order : ByteOrder) (t : Nat) (addr v : Value)
    (m : Machine M) : Machine M :=
  let (stored, memory) := I.storeConditional m.memory order addr v
  { m with memory }.bind t ⟨.i1, .ofBool stored⟩

theorem storeConditional_does (hp : p.stage.Level) {t : Nat} (ht : p.stage.Open t .i1)
    {a v : Expr} {τ : Ty} (ha : p.stage.check a = .ok env.arch.wordTy)
    (hv : p.stage.check v = .ok τ) :
    ∃ p', Does env I p (Reservation.storeConditional t a v) () p'
      (fun m => m.storeConditional I env.host t (a.eval I m) (v.eval I m)) ∧
      p'.stage.check (.tmp t) = .ok .i1 := by
  let stmt : Stmt := .storeConditional env.host t a v
  have hstore : p.stage.storeConditional env.host t a v =
      .ok ((p.stage.marked t).push stmt) := by
    simp only [Stage.storeConditional, Stage.checkAddress_word ha, hv, ht.tempTy_eq,
      ht.markBound_eq, ok_bind]
    rfl
  refine ⟨{ p with stage := (p.stage.marked t).push stmt }, ⟨?_, rfl, ht.follows_marked hp stmt,
    [stmt], Stage.push_stmts _, fun types m => rfl⟩, ht.check_marked stmt⟩
  change exec env p (Lift.onStage fun s => s.storeConditional env.host t a v) = _
  exact Lift.exec_onStage hstore

/-! ## The outcome in the condition register -/

/-- Condition field 0 behind a conditional store: equal where it was carried out, and the summary
overflow. -/
def storeField (stored so : Bool) : BitVec 4 := 0#2 ++ BitVec.ofBool stored ++ BitVec.ofBool so

/-- The summary overflow. -/
def GuestState.summaryOverflow (arch : Arch) (σ : GuestState) : Bool :=
  (σ (Layout.specialOffset arch .xerSo)).getLsbD 0

/-- The bytes of condition field 0 that tell the outcome. -/
def GuestState.withOutcome (arch : Arch) (σ : GuestState) (stored : Bool) : GuestState :=
  σ.withCrBytes arch 0 (if stored then 2 else 0) (σ (Layout.specialOffset arch .xerSo) &&& 1)

theorem GuestState.crField_withOutcome (arch : Arch) (σ : GuestState) (stored : Bool) :
    (σ.withOutcome arch stored).crField arch 0 = storeField stored (σ.summaryOverflow arch) := by
  rw [withOutcome, crField_withCrBytes, if_pos rfl, summaryOverflow]
  generalize σ (Layout.specialOffset arch .xerSo) = x
  revert stored x
  decide

theorem recordStore_does (hI : I.Bitwise) (hp : p.stage.Level) {t : Nat}
    (ht : p.stage.check (.tmp t) = .ok .i1) :
    ∃ p' F, Does env I p (Reservation.recordStore t) () p' F ∧
      ∀ m stored, m.temps t = ⟨.i1, .ofBool stored⟩ →
        F m = { m with state := m.state.withOutcome env.layout stored } := by
  let xerSo := Layout.specialOffset env.layout .xerSo
  let byte := bin (.shl .w8) (un (.cast .zext1to8) (.tmp t)) (.u8 1)
  let so := bin .and8 (.get xerSo .i8) (.u8 1)
  have hhi : Does env I p (putSlot (.cr321 0) byte) _ _ _ := Lift.putSlot_does hp
    (Layout.cr321_eq env.layout (by decide)) (Stage.check_bin rfl (Stage.check_un rfl ht) rfl)
  have hso (q : Progress) : exec env q Lift.getXerSo = (.ok so, q) := by
    have hplace : Layout.locate env.layout (.special .xerSo) = .ok ⟨xerSo, .i8⟩ := rfl
    rw [Lift.getXerSo, Lift.getMasked, Lift.exec_bind, Lift.exec_getSlot hplace]
    rfl
  have hlo : Does env I _ (putSlot (.cr0 0) so) _ _ _ := Lift.putSlot_does hhi.follows.level
    (Layout.cr0_eq env.layout (by decide)) (Stage.check_bin rfl rfl rfl)
  refine ⟨_, _, hhi.andThen ((Does.still hhi.follows.level (hso _)).andThen hlo),
    fun m stored hm => ?_⟩
  have hbyte : byte.eval I m = .i8 (if stored then 2 else 0) := by
    have htemp : (Expr.tmp t).eval I m = ⟨.i1, .ofBool stored⟩ := hm
    refine (hI.eval_shl (hI.eval_cast rfl rfl htemp) rfl (by decide)).trans ?_
    cases stored <;> rfl
  -- The summary overflow is not among the bytes that were written.
  have hbelow : xerSo + Ty.i8.bytes ≤ Layout.crBase env.layout :=
    (Layout.special_between env.layout .xerSo).le_high
  have hsize : Ty.i8.bytes = 1 := rfl
  let σ := m.state.write I.order (Layout.crBase env.layout + 2 * 0) (byte.eval I m)
  have hread : so.eval I { m with state := σ } = .i8 (m.state xerSo &&& 1) := by
    refine hI.eval_and ?_ rfl
    rw [Expr.eval, GuestState.read_i8]
    simp only [σ, hbyte]
    refine congrArg (Value.mk .i8) ((GuestState.write_i8 _ _).trans (if_neg ?_))
    omega
  change { m with state := σ.write I.order _ (so.eval I { m with state := σ }) } = _
  rw [hread]
  simp only [σ, hbyte, GuestState.write_field]
  rfl

/-- The machine `m'` is `m` behind a conditional store, with memory at `bytes`: condition field 0
tells the outcome, and no other byte of the guest state is new. -/
structure Recorded (arch : Arch) (view : M → ByteMemory) (stored : Bool) (bytes : ByteMemory)
    (m m' : Machine M) : Prop where
  memory : view m'.memory = bytes
  field : m'.state.crField arch 0 = storeField stored (m.state.summaryOverflow arch)
  others : ∀ o, ¬Layout.InField arch 0 o → m'.state o = m.state o

theorem recorded_withOutcome {arch : Arch} {view : M → ByteMemory} {stored : Bool}
    {bytes : ByteMemory} {σ : GuestState} (hstate : m.state = σ)
    (hstate' : m'.state = σ.withOutcome arch stored)
    (hmemory : view m'.memory = bytes) : Recorded arch view stored bytes m m' where
  memory := hmemory
  field := by rw [hstate', hstate, GuestState.crField_withOutcome]
  others o ho := by
    obtain ⟨hhi, hlo⟩ := not_or.mp ho
    simp only [hstate', hstate, GuestState.withOutcome, GuestState.withCrBytes, hhi, hlo, if_false]

/-! ## Addresses under a reservation -/

/-- The address of an instruction is a multiple of `n`. -/
def Machine.Aligned (I : Interp M) (arch : Arch) (w : Insn) (n : Nat) (m : Machine M) : Prop :=
  (m.state.indexed arch I.order w.ra w.rb).toNat % n = 0

instance (arch : Arch) (n : Nat) : Decidable (m.Aligned I arch w n) :=
  inferInstanceAs (Decidable (_ = _))

theorem alignedAddress_leads (hI : I.Modular) (hlayout : env.layout = env.arch)
    (hp : p.stage.Level) (w : Insn) {n : Nat} (hn : n ∈ accessSizes) :
    ∃ p', Leads env I p (Reservation.alignedAddress w n) (.tmp p.stage.fresh) p'
      (Machine.Aligned I env.arch w n)
      (fun m => m.bind p.stage.fresh (m.effective I env.arch w)) ∧
      p'.stage.check (.tmp p.stage.fresh) = .ok env.arch.wordTy ∧
      p.stage.fresh < p'.stage.fresh := by
  let ea := Expr.indexed env.arch w.ra w.rb
  have hbind : Does env I p (Lift.bind ea) _ _ _ :=
    Lift.bind_does hp (Expr.indexed_check p.stage env.arch w.ra w.rb)
  have hea := Stage.check_fresh hp ea env.arch.wordTy
  obtain ⟨p', haligned⟩ := requireAligned_leads (I := I) hI hbind.follows.level hea hn
  have hvalue (m : Machine M) : ea.eval I m = m.effective I env.arch w :=
    Expr.indexed_eval hI env.arch w.ra w.rb
  have hsum := Does.still (I := I) hp (exec_eaOr0Idx (p := p) hlayout w.ra_lt w.rb_lt)
  have hreturn : Does env I p' (pure (Expr.tmp p.stage.fresh)) _ p' id :=
    .still haligned.follows.level rfl
  refine ⟨p', (hsum.thenLeads (hbind.thenLeads (haligned.thenDoes hreturn))).congr
    fun m hm => ⟨?_, ?_⟩, haligned.follows.check _ _ hea,
    Nat.lt_of_lt_of_le (Stage.fresh_lt_withTemp ea _) haligned.follows.fresh_le⟩
  · exact ⟨_, (if_pos rfl).trans (hvalue m), hm⟩
  · exact congrArg (m.bind p.stage.fresh) (hvalue m)

/-! ## Values that are stored as a whole -/

/-- A value is stored under the reservation, and the outcome is recorded. -/
def StoresWhole (I : Interp M) (view : M → ByteMemory) (arch : Arch) (host : ByteOrder)
    (addr v : Value) (m m' : Machine M) : Prop :=
  let stored := (I.storeConditional m.memory host addr v).1
  Recorded arch view stored
    (if stored then (view m.memory).write host addr.address v else view m.memory) m m'

theorem Reservation.store_achieves {view : M → ByteMemory} (hI : I.Modular)
    (hview : I.Bytewise view) (hlayout : env.layout = env.arch) (hp : p.stage.Level) (w : Insn)
    (width : Width) :
    Lift.Achieves env I p (Reservation.store w width)
      (Machine.Aligned I env.arch w (width.bits / 8)) fun m m' =>
        StoresWhole I view env.arch env.host (m.effective I env.arch w)
          ⟨width.ty, (m.state.gpr env.arch I.order w.rs).setWidth _⟩ m m' := by
  have hn : width.bits / 8 ∈ accessSizes := by
    cases width <;> decide
  have hty : width.ty ≠ .i1 := by
    cases width <;> decide
  unfold Reservation.store
  refine .guardWhen (fun _ => Lift.needMode64_admits w _) fun hwide => ?_
  refine .guard (Lift.invalidIf_admits w _ _) fun _ => .listed hp fun p₁ hstage => ?_
  have hp₁ : p₁.stage.Level := hstage ▸ hp
  let source := Expr.gpr env.arch w.rs
  let value := narrowed env.arch width source
  obtain ⟨p₂, haligned, hea, -⟩ := alignedAddress_leads (I := I) hI hlayout hp₁ w hn
  have hgpr := Does.still (I := I) haligned.follows.level
    (exec_getGpr (p := p₂) hlayout w.rd_lt)
  have hnarrow := Does.still (I := I) haligned.follows.level
    (exec_narrow (p := p₂) (e := source) hwide rfl)
  have hnew : Does env I p₂ (Lift.newTemp .i1) _ _ id := newTemp_does haligned.follows.level .i1
  obtain ⟨p₃, hstore, hok⟩ := storeConditional_does (I := I) hnew.follows.level
    (newTemp_open haligned.follows.level .i1) (hnew.follows.check _ _ hea)
    (hnew.follows.check value _ (narrowed_check hwide rfl))
  obtain ⟨p₄, F, hrecord, hF⟩ := recordStore_does hI.toBitwise hstore.follows.level hok
  refine .of_leads (haligned.thenDoes (hgpr.andThen (hnarrow.andThen
    (hnew.andThen (hstore.andThen hrecord))))) fun m hm => ?_
  -- The machine in which the address is known, and the one behind the store.
  let addr := m.effective I env.arch w
  let m₁ := m.bind p₁.stage.fresh addr
  have haddr : (Expr.tmp p₁.stage.fresh).eval I m₁ = addr := if_pos rfl
  have hvalue : value.eval I m₁ = ⟨width.ty, (m.state.gpr env.arch I.order w.rs).setWidth _⟩ :=
    narrowed_eval hI.toBitwise hwide rfl
  change StoresWhole I view _ _ _ _ m (F (m₁.storeConditional I env.host p₂.stage.fresh
    ((Expr.tmp p₁.stage.fresh).eval I m₁) (value.eval I m₁)))
  rw [haddr, hvalue, hF _ _ (if_pos rfl), hlayout]
  exact recorded_withOutcome rfl rfl (hview.storeConditional _ _ _ _ hty)

/-! ## Quadwords -/

/-- The expression `e'` is the address that many bytes behind `e`. -/
structure Behind (env : Env) (I : Interp M) (e : Expr) (n : Nat) (e' : Expr) : Prop where
  check (s : Stage) (he : s.check e = .ok env.arch.wordTy) : s.check e' = .ok env.arch.wordTy
  eval (m : Machine M) (x : BitVec env.arch.wordTy.bits) (he : e.eval I m = ⟨env.arch.wordTy, x⟩) :
    e'.eval I m = ⟨env.arch.wordTy, x + .ofNat _ n⟩

theorem exec_quadHalves (env : Env) (hI : I.Modular) (ea : Expr) :
    ∃ hi lo, exec env p (Lift.quadHalves ea) = (.ok (hi, lo), p) ∧
      Behind env I ea (GuestState.highHalf env.host) hi ∧
      Behind env I ea (8 - GuestState.highHalf env.host) lo := by
  let other := bin (.add env.arch.word.width) ea (env.imm 8)
  have hsame : Behind env I ea 0 ea := ⟨fun _ he => he, fun m x he => by simpa using he⟩
  have hother : Behind env I ea 8 other := by
    refine ⟨fun s he => word_check (fun _ => rfl) he (env.imm_check s 8), fun m x he => ?_⟩
    refine (word_add hI he (env.imm_eval 8)).trans (congrArg (fun y => Value.mk _ (x + y)) ?_)
    cases env.arch <;> rfl
  have hread : exec env p (read : Lift Env) = (.ok env, p) := rfl
  have hplus : exec env p (Lift.addrPlus ea 8) = (.ok other, p) := rfl
  cases hhost : env.host with
  | big =>
      refine ⟨ea, other, ?_, hsame, hother⟩
      simp only [Lift.quadHalves, Lift.exec_bind, hplus, hread, hhost]
      rfl
  | little =>
      refine ⟨other, ea, ?_, hother, hsame⟩
      simp only [Lift.quadHalves, Lift.exec_bind, hplus, hread, hhost]
      rfl

section

variable {arch : Arch} (harch : arch = .ppc64)

include harch

theorem value_word_double (x : BitVec arch.wordTy.bits) :
    (⟨arch.wordTy, x⟩ : Value) = ⟨.i64, x.setWidth 64⟩ := by
  subst harch
  exact congrArg (Value.mk .i64) (BitVec.setWidth_eq x).symm

theorem address_word_add (x : BitVec arch.wordTy.bits) (n : Nat) :
    (x + .ofNat _ n).setWidth 64 = x.setWidth 64 + .ofNat 64 n := by
  subst harch
  exact (BitVec.setWidth_eq _).trans
    (congrArg (· + BitVec.ofNat 64 n) (BitVec.setWidth_eq x).symm)

end

/-- The high doubleword of a quadword is stored under the reservation, and the outcome is recorded;
the low one is stored in any case. -/
def StoresHalves (I : Interp M) (view : M → ByteMemory) (arch : Arch) (host : ByteOrder)
    (addr hi lo : BitVec 64) (m m' : Machine M) : Prop :=
  let hiAddr := addr + .ofNat 64 (GuestState.highHalf host)
  let loAddr := addr + .ofNat 64 (8 - GuestState.highHalf host)
  let stored := (I.storeConditional m.memory host ⟨.i64, hiAddr⟩ ⟨.i64, hi⟩).1
  Recorded arch view stored
    (if stored then (view m.memory).write host addr ⟨.i128, hi ++ lo⟩
    else (view m.memory).write host loAddr ⟨.i64, lo⟩) m m'

theorem view_store_halves {view : M → ByteMemory} (hview : I.Bytewise view) (memory : M)
    (host : ByteOrder) (addr hi lo : BitVec 64) :
    let hiAddr := addr + .ofNat 64 (GuestState.highHalf host)
    let loAddr := addr + .ofNat 64 (8 - GuestState.highHalf host)
    let outcome := I.storeConditional memory host ⟨.i64, hiAddr⟩ ⟨.i64, hi⟩
    view (I.store outcome.2 host ⟨.i64, loAddr⟩ ⟨.i64, lo⟩) =
      if outcome.1 then (view memory).write host addr ⟨.i128, hi ++ lo⟩
      else (view memory).write host loAddr ⟨.i64, lo⟩ := by
  intro hiAddr loAddr outcome
  have haddress (x : BitVec 64) : (⟨.i64, x⟩ : Value).address = x := BitVec.setWidth_eq x
  have hhigh : view outcome.2 =
      if outcome.1 then (view memory).write host hiAddr ⟨.i64, hi⟩ else view memory := by
    rw [← haddress hiAddr]
    exact hview.storeConditional memory host _ _ Ty.noConfusion
  rw [hview.store _ _ _ _ Ty.noConfusion, haddress, hhigh]
  split
  · exact ByteMemory.write_halves hi lo
  · rfl

theorem Reservation.storeQuad_achieves {view : M → ByteMemory} (hI : I.Modular)
    (hview : I.Bytewise view) (hlayout : env.layout = env.arch) (hp : p.stage.Level) (w : Insn) :
    Lift.Achieves env I p (Reservation.storeQuad w) (Machine.Aligned I env.arch w 16) fun m m' =>
      StoresHalves I view env.arch env.host (m.effective I env.arch w).address
        ((m.state.gpr env.arch I.order w.rs).setWidth 64)
        ((m.state.gpr env.arch I.order (w.rs + 1)).setWidth 64) m m' := by
  unfold Reservation.storeQuad
  refine .guard (Lift.needMode64_admits w _) fun harch => ?_
  refine .guard (Lift.invalidIf_admits w _ _) fun _ => ?_
  refine .guard (Lift.invalidIf_admits w _ _) fun heven => .listed hp fun p₁ hstage => ?_
  have hp₁ : p₁.stage.Level := hstage ▸ hp
  have hnext : w.rs + 1 < 32 := by
    have hlt : w.rs < 32 := w.rd_lt
    have heven : w.rs % 2 = 0 := by simpa using heven
    omega
  obtain ⟨p₂, haligned, hea, hlt⟩ :=
    alignedAddress_leads (I := I) (n := 16) hI hlayout hp₁ w (by decide)
  have hp₂ := haligned.follows.level
  obtain ⟨hiAddr, loAddr, hhalves, hhi, hlo⟩ :=
    exec_quadHalves (p := p₂) env hI (.tmp p₁.stage.fresh)
  have hnew : Does env I p₂ (Lift.newTemp .i1) _ _ id := newTemp_does hp₂ .i1
  have hhigh := Does.still (I := I) hnew.follows.level (exec_getGpr hlayout w.rd_lt)
  obtain ⟨p₃, hstore, hok⟩ := storeConditional_does (I := I) (v := .gpr env.arch w.rs)
    hnew.follows.level (newTemp_open hp₂ .i1) (hnew.follows.check _ _ (hhi.check _ hea)) rfl
  have hlow := Does.still (I := I) hstore.follows.level
    (exec_getGpr (p := p₃) hlayout hnext)
  have hloCheck := hstore.follows.check _ _ (hnew.follows.check _ _ (hlo.check _ hea))
  have hplain : Does env I p₃ (Lift.store loAddr (.gpr env.arch (w.rs + 1))) _ _ _ :=
    store_does hstore.follows.level hloCheck rfl (by cases env.arch <;> decide)
  obtain ⟨p₄, F, hrecord, hF⟩ := recordStore_does hI.toBitwise hplain.follows.level
    (hplain.follows.check _ _ hok)
  refine .of_leads (haligned.thenDoes ((Does.still hp₂ hhalves).andThen (hnew.andThen
    (hhigh.andThen (hstore.andThen (hlow.andThen (hplain.andThen hrecord))))))) fun m hm => ?_
  let addr := m.effective I env.arch w
  let high := addr.address + .ofNat 64 (GuestState.highHalf env.host)
  let low := addr.address + .ofNat 64 (8 - GuestState.highHalf env.host)
  let hi := (m.state.gpr env.arch I.order w.rs).setWidth 64
  let lo := (m.state.gpr env.arch I.order (w.rs + 1)).setWidth 64
  let m₁ := m.bind p₁.stage.fresh addr
  have haddr : (Expr.tmp p₁.stage.fresh).eval I m₁ = addr := if_pos rfl
  have hhiAddr : hiAddr.eval I m₁ = ⟨.i64, high⟩ := by
    rw [hhi.eval m₁ _ haddr, value_word_double harch, address_word_add harch]
    rfl
  have hhiValue : (Expr.gpr env.arch w.rs).eval I m₁ = ⟨.i64, hi⟩ := value_word_double harch _
  let m₂ := m₁.storeConditional I env.host p₂.stage.fresh ⟨.i64, high⟩ ⟨.i64, hi⟩
  -- The outcome stands in another temporary than the address.
  have haddr' : (Expr.tmp p₁.stage.fresh).eval I m₂ = addr :=
    (if_neg (Nat.ne_of_lt hlt)).trans haddr
  have hloAddr : loAddr.eval I m₂ = ⟨.i64, low⟩ := by
    rw [hlo.eval m₂ _ haddr', value_word_double harch, address_word_add harch]
    rfl
  have hloValue : (Expr.gpr env.arch (w.rs + 1)).eval I m₂ = ⟨.i64, lo⟩ :=
    value_word_double harch _
  let second (m : Machine M) : Machine M :=
    m.store I env.host (loAddr.eval I m) ((Expr.gpr env.arch (w.rs + 1)).eval I m)
  have hsecond : second m₂ = m₂.store I env.host ⟨.i64, low⟩ ⟨.i64, lo⟩ := by
    simp only [second, hloAddr, hloValue]
  change StoresHalves I view env.arch env.host addr.address hi lo m (F (second
    (m₁.storeConditional I env.host _ (hiAddr.eval I m₁) ((Expr.gpr env.arch w.rs).eval I m₁))))
  rw [hhiAddr, hhiValue, hF (second m₂) _ (if_pos rfl), hlayout, hsecond]
  exact recorded_withOutcome rfl rfl (view_store_halves hview _ _ _ _ _)

/-! ## The instructions -/

/-- The width of a conditional store of up to a doubleword, by its extended opcode. -/
def Insn.conditionalWidth? (w : Insn) : Option Width :=
  match w.xo10 with
  | 694 => some .w8
  | 726 => some .w16
  | 150 => some .w32
  | 214 => some .w64
  | _ => none

theorem Route.find?_conditionalStore (hopcode : w.opcode = 31)
    (hxo : w.xo10 ∈ [150, 182, 214, 694, 726]) :
    ∃ route, Route.find? w = some route ∧ route.family = .reservation :=
  find?_family hopcode (by decide) hxo

theorem Insn.conditionalWidth?_mem {width : Width} (h : w.conditionalWidth? = some width) :
    w.xo10 ∈ [150, 182, 214, 694, 726] ∧ Reservation.lift w = Reservation.store w width := by
  unfold conditionalWidth? at h
  unfold Reservation.lift
  split at h <;> simp_all

namespace Guest

variable {g : Guest} {l : Lifted} {ss : List Stmt} {view : M → ByteMemory}

theorem Codes.stores_whole (h : g.Codes w l ss) (hopcode : w.opcode = 31) {width : Width}
    (hwidth : w.conditionalWidth? = some width) (hI : I.Modular) (hview : I.Bytewise view) :
    l = ⟨4, .continue, none⟩ ∧ ∀ types m, Machine.Aligned I g.arch w (width.bits / 8) m →
      ∃ m', runAll I types ss m = .behind m' ∧
        StoresWhole I view g.arch g.host (m.effective I g.arch w)
          ⟨width.ty, (m.state.gpr g.arch I.order w.rs).setWidth _⟩ m m' := by
  obtain ⟨hxo, hlift⟩ := Insn.conditionalWidth?_mem hwidth
  obtain ⟨⟨pattern, gates, family⟩, hroute, rfl⟩ := Route.find?_conditionalStore hopcode hxo
  refine h.achieves hopcode fun env p hlayout harch hhost hp => .instruction hroute ?_
  rw [← harch, ← hhost]
  change Lift.Achieves env I p (Reservation.lift w) _ _
  rw [hlift]
  exact Reservation.store_achieves hI hview hlayout hp w width

theorem Codes.stores_halves (h : g.Codes w l ss) (hopcode : w.opcode = 31) (hxo : w.xo10 = 182)
    (hI : I.Modular) (hview : I.Bytewise view) :
    l = ⟨4, .continue, none⟩ ∧ ∀ types m, Machine.Aligned I g.arch w 16 m →
      ∃ m', runAll I types ss m = .behind m' ∧
        StoresHalves I view g.arch g.host (m.effective I g.arch w).address
          ((m.state.gpr g.arch I.order w.rs).setWidth 64)
          ((m.state.gpr g.arch I.order (w.rs + 1)).setWidth 64) m m' := by
  have hlift : Reservation.lift w = Reservation.storeQuad w := by simp only [Reservation.lift, hxo]
  obtain ⟨⟨pattern, gates, family⟩, hroute, rfl⟩ :=
    Route.find?_conditionalStore hopcode (by simp [hxo])
  refine h.achieves hopcode fun env p hlayout harch hhost hp => .instruction hroute ?_
  rw [← harch, ← hhost]
  change Lift.Achieves env I p (Reservation.lift w) _ _
  rw [hlift]
  exact Reservation.storeQuad_achieves hI hview hlayout hp w

/-- The code of an accepted conditional store with an aligned address ends behind the instruction,
with the outcome in condition field 0 and no other change of the guest state. A value of up to a
doubleword is in memory if and only if the store was carried out. Of a quadword, whose registers are
all in memory where the store was carried out, the low doubleword is there in any case. -/
theorem conditional_stores (h : g.Codes w l ss) (hopcode : w.opcode = 31) (hI : I.Modular)
    (hview : I.Bytewise view) :
    (∀ width, w.conditionalWidth? = some width →
      l = ⟨4, .continue, none⟩ ∧ ∀ types m, Machine.Aligned I g.arch w (width.bits / 8) m →
        ∃ m', runAll I types ss m = .behind m' ∧
          StoresWhole I view g.arch g.host (m.effective I g.arch w)
            ⟨width.ty, (m.state.gpr g.arch I.order w.rs).setWidth _⟩ m m') ∧
    (w.xo10 = 182 →
      l = ⟨4, .continue, none⟩ ∧ ∀ types m, Machine.Aligned I g.arch w 16 m →
        ∃ m', runAll I types ss m = .behind m' ∧
          StoresHalves I view g.arch g.host (m.effective I g.arch w).address
            ((m.state.gpr g.arch I.order w.rs).setWidth 64)
            ((m.state.gpr g.arch I.order (w.rs + 1)).setWidth 64) m m') :=
  ⟨fun _ hwidth => h.stores_whole hopcode hwidth hI hview,
    fun hxo => h.stores_halves hopcode hxo hI hview⟩

/-- A processor with conditional stores of quadwords. -/
def quadwords : Guest := { arch := .ppc64, info := { caps := ⟨Capability.ppc64ISA207.mask⟩ } }

/-- A machine with an address in general register 5, with or without a reservation. -/
def storing (held : Bool) : Machine Interp.Reserved :=
  .start ⟨fun _ => 0, held⟩ fun o => if o = 41 then 0x10 else 0

/-- The code of `stdcx. r4,0,r5` and `stqcx. r4,0,r5`. -/
theorem exists_codes_stores :
    (∃ ss, quadwords.Codes ⟨0x7C8029AD⟩ ⟨4, .continue, none⟩ ss) ∧
      ∃ ss, quadwords.Codes ⟨0x7C80296D⟩ ⟨4, .continue, none⟩ ss := by
  let single : ByteArray := ⟨#[0x7C, 0x80, 0x29, 0xAD]⟩
  let quad : ByteArray := ⟨#[0x7C, 0x80, 0x29, 0x6D]⟩
  have hsingle : (quadwords.lift single 0 0x1000 0x1000 (.empty 1280)).result =
      .ok ⟨4, .continue, none⟩ := by decide +kernel
  have hquad : (quadwords.lift quad 0 0x1000 0x1000 (.empty 1280)).result =
      .ok ⟨4, .continue, none⟩ := by decide +kernel
  exact ⟨⟨_, .of_lift (by decide) hsingle rfl⟩, ⟨_, .of_lift (by decide) hquad rfl⟩⟩

/-- A doubleword and a quadword under a reservation. -/
theorem conditional_stores_held :
    (∃ ss m', quadwords.Codes ⟨0x7C8029AD⟩ ⟨4, .continue, none⟩ ss ∧
      runAll (.bytewise .little) #[] ss (storing true) = .behind m' ∧
      StoresWhole (.bytewise .little) Interp.Reserved.bytes .ppc64 .little ⟨.i64, 0x1000⟩ ⟨.i64, 0⟩
        (storing true) m') ∧
    ∃ ss m', quadwords.Codes ⟨0x7C80296D⟩ ⟨4, .continue, none⟩ ss ∧
      runAll (.bytewise .little) #[] ss (storing true) = .behind m' ∧
      StoresHalves (.bytewise .little) Interp.Reserved.bytes .ppc64 .little 0x1000 0 0x1000
        (storing true) m' := by
  obtain ⟨⟨ss, hsingle⟩, ss', hquad⟩ := exists_codes_stores
  have hI := Interp.bytewise_modular .little
  have hview := Interp.bytewise_bytewise .little
  obtain ⟨-, hwhole⟩ :=
    (conditional_stores hsingle (by decide) hI hview).1 .w64 (by decide)
  obtain ⟨-, hhalves⟩ := (conditional_stores hquad (by decide) hI hview).2 (by decide)
  obtain ⟨m', hrun, hstored⟩ := hwhole #[] (storing true) (by decide +kernel)
  obtain ⟨m'', hrun', hstored'⟩ := hhalves #[] (storing true) (by decide +kernel)
  exact ⟨⟨ss, m', hsingle, hrun, hstored⟩, ss', m'', hquad, hrun', hstored'⟩

/-- Without a reservation a quadword is not stored, says the condition register, and still its low
doubleword is in memory. -/
theorem conditional_stores_torn :
    ∃ ss m', quadwords.Codes ⟨0x7C80296D⟩ ⟨4, .continue, none⟩ ss ∧
      runAll (.bytewise .little) #[] ss (storing false) = .behind m' ∧
      m'.state.crField .ppc64 0 = storeField false false ∧
      (storing false).memory.bytes 0x1001 = 0 ∧ m'.memory.bytes 0x1001 = 0x10 := by
  obtain ⟨-, ss, hquad⟩ := exists_codes_stores
  obtain ⟨-, hhalves⟩ := hquad.stores_halves (by decide) (by decide)
    (Interp.bytewise_modular .little) (Interp.bytewise_bytewise .little)
  obtain ⟨m', hrun, hstored⟩ := hhalves #[] (storing false) (by decide +kernel)
  refine ⟨ss, m', hquad, hrun, hstored.field, rfl, ?_⟩
  have hmemory := congrFun hstored.memory 0x1001
  exact hmemory.trans (by decide +kernel)

end Guest

end PowerLift
