import PowerLift.Proofs.Typing

/-!
# Placements

An instruction is lifted twice in all that follows: alone, where no branch may be followed, and
behind a block with temporaries of its own. A placement says in which configurations.
-/

namespace PowerLift

namespace Features

/-- Every extension that `f` enables is enabled by `f'`. -/
structure Within (f f' : Features) : Prop where
  fp : f.fp = true → f'.fp = true
  altivec : f.altivec = true → f'.altivec = true
  fx : f.fx = true → f'.fx = true
  gx : f.gx = true → f'.gx = true
  vsx : f.vsx = true → f'.vsx = true
  dfp : f.dfp = true → f'.dfp = true
  isa207 : f.isa207 = true → f'.isa207 = true
  isa30 : f.isa30 = true → f'.isa30 = true

theorem Within.refl (f : Features) : f.Within f := ⟨id, id, id, id, id, id, id, id⟩

end Features

/-- Two ways to lift one instruction: alone, and behind a block. -/
structure Placement where
  /-- What the lifting behind the block depends on. -/
  env : Env
  /-- The temporaries of the block. -/
  outer : Array Ty
  /-- The capabilities of the processor for the lifting alone. -/
  caps : Capabilities
  /-- The extensions enabled for the lifting alone. -/
  features : Features
  /-- The start of the block for the lifting alone. -/
  start : BitVec 64
  /-- The word that is lifted. -/
  word : Insn
  /-- The number of bytes that the lifting takes. -/
  span : Nat
  layout_eq : env.layout = env.arch
  features_le : features.Within env.features
  dcbz_size : env.info.dcbzSize ∈ Processor.lineSizes
  dcbzl_size : env.info.dcbzlSize ∈ Processor.lineSizes
  icache_size : env.info.icacheLineSize ∈ Processor.lineSizes

namespace Placement

/-- What the lifting alone depends on. -/
def alone (P : Placement) : Env :=
  { P.env with
    info := { P.env.info with caps := P.caps }
    features := P.features
    blockStart := P.start
    mayResteer := fun _ => false }

variable (P : Placement)

@[simp] theorem alone_arch : P.alone.arch = P.env.arch := rfl
@[simp] theorem alone_host : P.alone.host = P.env.host := rfl
@[simp] theorem alone_layout : P.alone.layout = P.env.layout := rfl
@[simp] theorem alone_features : P.alone.features = P.features := rfl
@[simp] theorem alone_address (v : BitVec 64) : P.alone.address v = P.env.address v := rfl
@[simp] theorem alone_cutAddress (a : BitVec 64) : P.alone.cutAddress a = P.env.cutAddress a := rfl

/-- The type of a general register. -/
abbrev gprTy : Ty := P.env.gprTy

variable {P} in
theorem gprTy_eq (h64 : P.env.arch.is64 = true) : P.gprTy = .i64 := by
  cases harch : P.env.arch with
  | ppc32 => simp [harch, Arch.is64] at h64
  | ppc64 => simp [gprTy, Env.gprTy, harch, Arch.word, Word.width, Width.ty]

variable {P} in
theorem gprTy_eq32 (h64 : P.env.arch.is64 = false) : P.gprTy = .i32 := by
  cases harch : P.env.arch with
  | ppc32 => simp [gprTy, Env.gprTy, harch, Arch.word, Word.width, Width.ty]
  | ppc64 => simp [harch, Arch.is64] at h64

end Placement

end PowerLift
