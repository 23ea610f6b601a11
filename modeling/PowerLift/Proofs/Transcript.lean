import PowerLift.Walk

/-!
# What commands put out

A command only adds to its transcript, and what it does does not depend on what was put out before.
Forming a block prints nothing, so the result of a block by itself is its result in a walk.
-/

namespace PowerLift

namespace Session

variable {α β : Type} {m : Session α} {f : α → Session β} {a : α} {b : β}
  {lines lines' : Array String}

/-- A command that ends with a result and prints lines, whatever was put out before. -/
def Prints (m : Session α) (a : α) (lines : Array String) : Prop :=
  ∀ t : Transcript, ∃ log, ExceptT.run m t = (.ok a, ⟨t.printed ++ lines, t.log ++ log⟩)

/-- A command that prints nothing, and whose outcome does not depend on what was put out before. -/
def Quiet (m : Session α) : Prop :=
  ∃ r log, ∀ t : Transcript, ExceptT.run m t = (r, ⟨t.printed, t.log ++ log⟩)

/-- The run of a sequence, from the run of its first command. -/
theorem run_bind {r : Except Failure α} {t t' : Transcript} (hm : ExceptT.run m t = (r, t')) :
    ExceptT.run (m >>= f) t = ExceptT.bindCont f r t' := by
  change (match m t with | (r, t) => ExceptT.bindCont f r t) = _
  rw [show m t = (r, t') from hm]

namespace Prints

theorem bind (hm : Prints m a lines) (hf : Prints (f a) b lines') :
    Prints (m >>= f) b (lines ++ lines') := by
  intro t
  obtain ⟨log, hm⟩ := hm t
  obtain ⟨log', hf⟩ := hf ⟨t.printed ++ lines, t.log ++ log⟩
  refine ⟨log ++ log', ?_⟩
  rw [← Array.append_assoc, ← Array.append_assoc, ← hf]
  exact run_bind hm

/-- A command that prints nothing, before another one. -/
theorem seq (hm : Prints m a #[]) (hf : Prints (f a) b lines) : Prints (m >>= f) b lines := by
  simpa using hm.bind hf

theorem exec_eq (h : Prints m a lines) : m.exec.1 = .ok a ∧ m.exec.2.printed = lines := by
  obtain ⟨log, h⟩ := h {}
  rw [show m.exec = _ from h]
  exact ⟨rfl, Array.empty_append⟩

end Prints

theorem prints_pure (a : α) : Prints (pure a) a #[] :=
  fun _ => ⟨#[], by rw [Array.append_empty, Array.append_empty]; rfl⟩

theorem prints_print (line : String) : Prints (print line) () #[line] := fun _ => ⟨#[], rfl⟩

theorem prints_logAll (log : Array LogLine) : Prints (logAll log) () #[] := fun _ => ⟨log, rfl⟩

theorem prints_ofFault (a : α) : Prints (ofFault (.ok a)) a #[] := prints_pure a

theorem prints_forM (lines : List String) : Prints (lines.forM print) () lines.toArray := by
  induction lines with
  | nil => exact prints_pure ()
  | cons line lines ih =>
      have h := (prints_print line).bind (f := fun _ => lines.forM print) ih
      rwa [List.append_toArray] at h

namespace Quiet

theorem pure (a : α) : Quiet (pure a) := ⟨.ok a, #[], fun _ => rfl⟩

theorem logAll (log : Array LogLine) : Quiet (logAll log) := ⟨.ok (), log, fun _ => rfl⟩

theorem ofFault (r : Except Fault α) : Quiet (ofFault r) := by
  cases r with
  | ok a => exact .pure a
  | error fault => exact ⟨.error (.fault fault), #[], fun _ => rfl⟩

theorem bind (hm : Quiet m) (hf : ∀ a, Quiet (f a)) : Quiet (m >>= f) := by
  obtain ⟨r, log, hm⟩ := hm
  cases r with
  | error failure => exact ⟨.error failure, log, fun t => run_bind (hm t)⟩
  | ok a =>
      obtain ⟨r, log', hf⟩ := hf a
      refine ⟨r, log ++ log', fun t => ?_⟩
      rw [run_bind (hm t), ← Array.append_assoc]
      exact hf ⟨t.printed, t.log ++ log⟩

/-- Such a command gives what it gives by itself. -/
theorem prints (h : Quiet m) (ha : m.exec.1 = .ok a) : Prints m a #[] := by
  obtain ⟨r, log, h⟩ := h
  obtain rfl : r = .ok a := by rwa [exec, h] at ha
  exact fun t => ⟨log, by rw [h t, Array.append_empty]⟩

end Quiet

end Session

/-- The lines of a block in a walk. -/
def Formed.lines (formed : Formed) (addr : BitVec 64) : List String :=
  let address := Text.hexAtLeast 8 addr.toNat
  s!"==== {address}: {formed.insns} instruction(s), {formed.block.kind.name} ====" ::
    (formed.block.render ++ [""])

namespace Guest

open Session (Quiet Prints prints_print prints_forM)

/-- Forming a block prints nothing. -/
theorem extend_quiet (g : Guest) (image : Image) (start : BitVec 64) (budget : Nat)
    (addr : BitVec 64) (formed : Formed) : Quiet (g.extend image start budget addr formed) := by
  induction budget generalizing addr formed with
  | zero => exact .pure _
  | succ budget ih =>
      unfold extend
      simp only
      split
      · exact .bind (.logAll _) fun _ => .pure _
      · refine .bind (.logAll _) fun _ => .bind (.ofFault _) fun lifted => ?_
        cases lifted.next with
        | «continue» => exact .bind (.ofFault _) fun behind => ih behind _
        | resteer target => exact ih target _
        | stop kind => exact .pure _

theorem form_prints {g : Guest} {image : Image} {start : BitVec 64} {maxInsns : Nat}
    {formed : Formed} (h : (g.form image start maxInsns).exec.1 = .ok formed) :
    Prints (g.form image start maxInsns) formed #[] :=
  (extend_quiet g image start maxInsns start ⟨g.emptyBlock, 0⟩).prints h

theorem showBlock_prints (addr : BitVec 64) (formed : Formed) :
    Prints (showBlock addr formed) () (formed.lines addr).toArray := by
  rw [Formed.lines, ← List.singleton_append, ← List.append_toArray, ← List.append_toArray]
  exact .bind (prints_print _) (.bind (prints_forM formed.block.render) (prints_print ""))

end Guest

end PowerLift
