import Mathlib.Data.List.Infix
import Mathlib.Logic.Relation
import PowerLift.Proofs.Transcript

/-!
# Walks are breadth first

The addresses of an image at which a word stands are the vertices of a graph, whose edges lead from
an address to the successors of the block that is formed there. A walk prints the blocks of the
first vertices in breadth-first order, each once; where its limit is not reached, these are all that
the entry leads to.
-/

namespace PowerLift

/-! ## Breadth-first order -/

section Order

variable {α : Type} [DecidableEq α]

/-- A search that goes layer by layer: the vertices found before, and those at the distance that it
has come to. -/
structure Search (α : Type) where
  found : List α
  layer : List α

namespace Search

/-- The next layer has what the vertices of this one lead to, in their order, and was not found
before. -/
def advance (succ : α → List α) (s : Search α) : Search α :=
  let found := s.found ++ s.layer
  ⟨found, ((s.layer.flatMap succ).removeAll found).eraseDups⟩

/-- The search from a vertex, at a distance. -/
def upTo (succ : α → List α) (root : α) : Nat → Search α
  | 0 => ⟨[], [root]⟩
  | n + 1 => (Search.upTo succ root n).advance succ

end Search

/-- The vertices nearer than a distance, in breadth-first order. -/
def breadthFirst (succ : α → List α) (root : α) (distance : Nat) : List α :=
  (Search.upTo succ root distance).found

/-- What some vertices lead to, with repetitions; a search starts with its root. -/
def trail (succ : α → List α) (root : α) (vertices : List α) : List α :=
  root :: vertices.flatMap succ

variable {succ : α → List α} {root : α} {xs ys zs : List α}

theorem removeAll_congr (h : ∀ a, a ∈ ys ↔ a ∈ zs) : xs.removeAll ys = xs.removeAll zs :=
  List.filter_congr fun a _ => by simp [h a]

theorem removeAll_append : xs.removeAll (ys ++ zs) = (xs.removeAll ys).removeAll zs := by
  simp only [List.removeAll, List.filter_filter]
  refine List.filter_congr fun a _ => ?_
  simp [Bool.and_comm]

theorem removeAll_singleton (a : α) : xs.removeAll [a] = xs.filter fun b => !b == a := by
  refine List.filter_congr fun b _ => ?_
  cases hb : b == a with
  | true => simp_all
  | false => simp_all

theorem nodup_eraseDups (xs : List α) : xs.eraseDups.Nodup := by
  cases xs with
  | nil => simp
  | cons a xs =>
      rw [List.eraseDups_cons, List.nodup_cons, List.mem_eraseDups]
      exact ⟨by simp, nodup_eraseDups _⟩
termination_by xs.length
decreasing_by exact Nat.lt_succ_of_le (List.length_filter_le _ xs)

theorem eraseDups_mono (h : xs <+: ys) : xs.eraseDups <+: ys.eraseDups := by
  obtain ⟨zs, rfl⟩ := h
  exact ⟨_, List.eraseDups_append.symm⟩

omit [DecidableEq α] in
theorem trail_append (xs ys : List α) :
    trail succ root (xs ++ ys) = trail succ root xs ++ ys.flatMap succ := by
  simp [trail]

/-- The vertices up to a distance are what the nearer ones lead to. -/
theorem breadthFirst_succ (n : Nat) :
    breadthFirst succ root (n + 1) = (trail succ root (breadthFirst succ root n)).eraseDups := by
  induction n with
  | zero => simp [breadthFirst, Search.upTo, Search.advance, trail, List.eraseDups_cons]
  | succ n ih =>
      have hfound : breadthFirst succ root (n + 1) =
          breadthFirst succ root n ++ (Search.upTo succ root n).layer := rfl
      rw [hfound, trail_append, List.eraseDups_append, ← ih]
      change breadthFirst succ root (n + 1) ++ _ = _
      refine congrArg (_ ++ List.eraseDups ·) (removeAll_congr fun a => ?_)
      change a ∈ breadthFirst succ root (n + 1) ↔ _
      rw [ih, List.mem_eraseDups]

theorem breadthFirst_mono {m n : Nat} (h : m ≤ n) :
    breadthFirst succ root m <+: breadthFirst succ root n := by
  induction h with
  | refl => exact List.prefix_rfl
  | step _ ih => exact ih.trans (List.prefix_append _ _)

theorem trail_mono (h : xs <+: ys) :
    (trail succ root xs).eraseDups <+: (trail succ root ys).eraseDups := by
  obtain ⟨zs, rfl⟩ := h
  exact eraseDups_mono ⟨_, (trail_append xs zs).symm⟩

/-- Vertices that are listed one by one: each is the next one that those before it lead to. -/
inductive Listed (succ : α → List α) (root : α) : List α → Prop where
  | nil : Listed succ root []
  | snoc {xs : List α} {a : α} (h : Listed succ root xs)
      (hnext : xs ++ [a] <+: (trail succ root xs).eraseDups) : Listed succ root (xs ++ [a])

namespace Listed

theorem prefix_breadthFirst (h : Listed succ root xs) :
    xs <+: breadthFirst succ root xs.length := by
  induction h with
  | nil => exact List.nil_prefix
  | @snoc xs a _ hnext ih =>
      rw [List.length_append, List.length_singleton, breadthFirst_succ]
      exact hnext.trans (trail_mono ih)

/-- Listed vertices are the first ones, at whatever distance the search is broken off. -/
theorem prefix_take (h : Listed succ root xs) {limit distance : Nat} (hlimit : xs.length ≤ limit)
    (hdistance : limit ≤ distance) : xs <+: (breadthFirst succ root distance).take limit := by
  have hprefix : xs <+: breadthFirst succ root distance :=
    h.prefix_breadthFirst.trans (breadthFirst_mono (Nat.le_trans hlimit hdistance))
  simpa [List.take_of_length_le hlimit] using hprefix.take limit

theorem nodup (h : Listed succ root xs) : xs.Nodup := by
  cases h with
  | nil => exact List.nodup_nil
  | snoc _ hnext => exact hnext.sublist.nodup (nodup_eraseDups _)

theorem reachable (h : Listed succ root xs) {a : α} (ha : a ∈ xs) :
    Relation.ReflTransGen (fun a b => b ∈ succ a) root a := by
  induction h generalizing a with
  | nil => simp at ha
  | @snoc xs c _ hnext ih =>
      have ha : a ∈ trail succ root xs := List.mem_eraseDups.mp (hnext.subset ha)
      obtain rfl | ha := List.mem_cons.mp ha
      · exact .refl
      · obtain ⟨b, hb, hab⟩ := List.mem_flatMap.mp ha
        exact (ih hb).tail hab

end Listed

/-- Vertices that lead to no others are all there are. -/
theorem breadthFirst_of_closed (hall : (trail succ root xs).eraseDups = xs) (n : Nat) :
    breadthFirst succ root n <+: xs := by
  induction n with
  | zero => exact List.nil_prefix
  | succ n ih =>
      rw [breadthFirst_succ]
      exact hall ▸ trail_mono ih

theorem mem_of_reachable (hall : (trail succ root xs).eraseDups = xs) {a : α}
    (h : Relation.ReflTransGen (fun a b => b ∈ succ a) root a) : a ∈ xs := by
  induction h with
  | refl => rw [← hall, List.mem_eraseDups]; exact List.mem_cons_self
  | @tail b c _ hbc hb =>
      rw [← hall, List.mem_eraseDups]
      exact List.mem_cons_of_mem _ (List.mem_flatMap.mpr ⟨b, hb, hbc⟩)

end Order

/-! ## The graph of an image -/

namespace Guest

/-- The addresses in the image to which the block at an address leads. -/
def nexts (g : Guest) (image : Image) (maxInsns : Nat) (a : BitVec 64) : List (BitVec 64) :=
  match (g.form image a maxInsns).exec.1 with
  | .ok formed => formed.block.successors.filter fun next => (image.offset? next).isSome
  | .error _ => []

end Guest

/-- The queued addresses that are still to be visited. -/
def Image.waiting (image : Image) (queue visited : List (BitVec 64)) : List (BitVec 64) :=
  (queue.filter fun a => (image.offset? a).isSome).removeAll visited

/-- A walk between two blocks: the queue holds what the visited addresses lead to, and may hold
other addresses that will be passed over. -/
structure Walking (g : Guest) (image : Image) (maxInsns : Nat) (entry : BitVec 64)
    (queue seen visited : List (BitVec 64)) : Prop where
  listed : Listed (g.nexts image maxInsns) entry visited
  seen_iff : ∀ a, (image.offset? a).isSome → (a ∈ seen ↔ a ∈ visited)
  trail_eq : (trail (g.nexts image maxInsns) entry visited).eraseDups =
    visited ++ (image.waiting queue visited).eraseDups

namespace Walking

variable {g : Guest} {image : Image} {maxInsns : Nat} {entry a : BitVec 64}
  {queue rest seen visited : List (BitVec 64)} {formed : Formed}

theorem start (hentry : (image.offset? entry).isSome) :
    Walking g image maxInsns entry [entry] [] [] where
  listed := .nil
  seen_iff a _ := Iff.rfl
  trail_eq := by simp [trail, Image.waiting, hentry, List.removeAll]

/-- An address that was seen before is passed over. -/
theorem skip (h : Walking g image maxInsns entry (a :: rest) seen visited) (ha : a ∈ seen) :
    Walking g image maxInsns entry rest seen visited where
  listed := h.listed
  seen_iff := h.seen_iff
  trail_eq := by
    rw [h.trail_eq]
    by_cases hvertex : (image.offset? a).isSome
    · have hvisited : a ∈ visited := (h.seen_iff a hvertex).mp ha
      simp [Image.waiting, List.removeAll, hvertex, hvisited]
    · simp [Image.waiting, List.removeAll, hvertex]

/-- So is an address outside the image. -/
theorem pass (h : Walking g image maxInsns entry (a :: rest) seen visited)
    (ha : image.offset? a = none) : Walking g image maxInsns entry rest (a :: seen) visited where
  listed := h.listed
  seen_iff b hb := by
    have hne : b ≠ a := by
      rintro rfl
      simp [ha] at hb
    simp [hne, h.seen_iff b hb]
  trail_eq := by
    rw [h.trail_eq]
    simp [Image.waiting, ha]

theorem not_mem_visited (h : Walking g image maxInsns entry queue seen visited) (ha : a ∉ seen)
    (hvertex : (image.offset? a).isSome) : a ∉ visited :=
  mt (h.seen_iff a hvertex).mpr ha

/-- The first address that is not passed over is the next in the order. -/
theorem trail_next (h : Walking g image maxInsns entry (a :: rest) seen visited) (ha : a ∉ seen)
    (hvertex : (image.offset? a).isSome) :
    (trail (g.nexts image maxInsns) entry visited).eraseDups =
      visited ++ [a] ++ (image.waiting rest (visited ++ [a])).eraseDups := by
  have hfresh : a ∉ visited := h.not_mem_visited ha hvertex
  have hwaiting : image.waiting (a :: rest) visited = a :: image.waiting rest visited := by
    simp [Image.waiting, List.removeAll, hvertex, hfresh]
  have hrest : image.waiting rest (visited ++ [a]) =
      (image.waiting rest visited).filter fun b => !b == a := by
    rw [Image.waiting, removeAll_append, removeAll_singleton, Image.waiting]
  rw [h.trail_eq, hwaiting, List.eraseDups_cons, hrest, List.append_assoc]
  rfl

theorem waiting_append (queue queue' visited : List (BitVec 64)) :
    image.waiting (queue ++ queue') visited =
      image.waiting queue visited ++ image.waiting queue' visited := by
  simp [Image.waiting, List.removeAll]

/-- The successors that are queued, but for those that will be passed over. -/
theorem waiting_fresh (h : Walking g image maxInsns entry queue seen visited)
    (hform : (g.form image a maxInsns).exec.1 = .ok formed) :
    image.waiting (formed.block.successors.filter fun next => !(a :: seen).contains next)
        (visited ++ [a]) =
      (g.nexts image maxInsns a).removeAll (visited ++ [a]) := by
  simp only [Guest.nexts, hform, Image.waiting, List.removeAll, List.filter_filter]
  refine List.filter_congr fun b _ => ?_
  -- Seen addresses in the image were visited.
  cases hb : (image.offset? b).isSome with
  | false => simp
  | true =>
      rw [Bool.eq_iff_iff]
      simp [h.seen_iff b hb]
      exact fun hvisited hne => ⟨hne, hvisited⟩

/-- The block at an address is visited, and its successors are queued. -/
theorem visit (h : Walking g image maxInsns entry (a :: rest) seen visited) (ha : a ∉ seen)
    (hvertex : (image.offset? a).isSome)
    (hform : (g.form image a maxInsns).exec.1 = .ok formed) :
    Walking g image maxInsns entry
      (rest ++ formed.block.successors.filter fun next => !(a :: seen).contains next)
      (a :: seen) (visited ++ [a]) where
  listed := h.listed.snoc ⟨_, (h.trail_next ha hvertex).symm⟩
  seen_iff b hb := by
    simp [h.seen_iff b hb, or_comm]
  trail_eq := by
    have hmem : ∀ b, b ∈ trail (g.nexts image maxInsns) entry visited ↔
        b ∈ visited ++ [a] ++ image.waiting rest (visited ++ [a]) := by
      intro b
      rw [← List.mem_eraseDups, h.trail_next ha hvertex]
      simp
    rw [trail_append, List.flatMap_singleton, List.eraseDups_append, h.trail_next ha hvertex,
      removeAll_congr hmem, removeAll_append, waiting_append, h.waiting_fresh hform,
      List.eraseDups_append, List.append_assoc _ _]

end Walking

/-- The blocks that are visited behind others: those that come next, until none is left or there are
as many as allowed. -/
structure Visits (g : Guest) (image : Image) (maxInsns : Nat) (entry : BitVec 64)
    (visited : List (BitVec 64)) (budget : Nat) (blocks : List (BitVec 64 × Formed)) : Prop where
  formed : ∀ b ∈ blocks, (g.form image b.1 maxInsns).exec.1 = .ok b.2
  listed : Listed (g.nexts image maxInsns) entry (visited ++ blocks.map Prod.fst)
  stops : blocks.length = budget ∨ blocks.length < budget ∧
    (trail (g.nexts image maxInsns) entry (visited ++ blocks.map Prod.fst)).eraseDups =
      visited ++ blocks.map Prod.fst

/-- The lines of visited blocks. -/
def Formed.linesOf (blocks : List (BitVec 64 × Formed)) : List String :=
  blocks.flatMap fun b => b.2.lines b.1

namespace Guest

open Session (Prints prints_pure prints_logAll prints_print)

variable {g : Guest} {image : Image} {maxInsns : Nat} {entry : BitVec 64}

/-- A walk goes on in breadth-first order, where the blocks can be formed. -/
theorem visit_prints {limit : Nat}
    (hforms : ∀ (xs : List (BitVec 64)) (a : BitVec 64),
      Listed (g.nexts image maxInsns) entry (xs ++ [a]) → xs.length < limit →
      ∃ formed, (g.form image a maxInsns).exec.1 = .ok formed)
    {budget : Nat} {queue seen visited : List (BitVec 64)} (count : Nat)
    (h : Walking g image maxInsns entry queue seen visited)
    (hlimit : visited.length + budget = limit) :
    ∃ blocks, Visits g image maxInsns entry visited budget blocks ∧
      Prints (g.visit image maxInsns budget queue seen count) (count + blocks.length)
        (Formed.linesOf blocks).toArray := by
  induction budget, queue, seen, count using visit.induct image generalizing visited with
  | case1 budget seen count =>
      refine ⟨[], ⟨by simp, by simpa using h.listed, ?_⟩, ?_⟩
      · have htrail := h.trail_eq
        cases budget with
        | zero => exact .inl rfl
        | succ left => exact .inr ⟨Nat.succ_pos left, by simpa [Image.waiting] using htrail⟩
      · unfold visit
        exact prints_pure count
  | case2 seen count a rest =>
      refine ⟨[], ⟨by simp, by simpa using h.listed, .inl rfl⟩, ?_⟩
      unfold visit
      exact .seq (prints_logAll _) (prints_pure count)
  | case3 seen count a rest left hseen ih =>
      obtain ⟨blocks, hvisits, hprints⟩ := ih (h.skip (by simpa using hseen)) hlimit
      refine ⟨blocks, hvisits, ?_⟩
      unfold visit
      rwa [if_pos hseen]
  | case4 seen count a rest left hseen houtside ih =>
      obtain ⟨blocks, hvisits, hprints⟩ := ih (h.pass (by simpa using houtside)) hlimit
      refine ⟨blocks, hvisits, ?_⟩
      unfold visit
      rwa [if_neg hseen, if_pos houtside]
  | case5 seen count a rest left hseen hinside ih =>
      have hunseen : a ∉ seen := by simpa using hseen
      have hvertex : (image.offset? a).isSome := by simpa [Option.isSome_iff_ne_none] using hinside
      have hnext := h.listed.snoc ⟨_, (h.trail_next hunseen hvertex).symm⟩
      obtain ⟨formed, hform⟩ := hforms visited a hnext (by omega)
      obtain ⟨blocks, hvisits, hprints⟩ := ih formed (h.visit hunseen hvertex hform)
        (by simp; omega)
      have happend : visited ++ [a] ++ blocks.map Prod.fst =
          visited ++ ((a, formed) :: blocks).map Prod.fst := by simp
      refine ⟨(a, formed) :: blocks, ⟨?_, ?_, ?_⟩, ?_⟩
      · exact List.forall_mem_cons.mpr ⟨hform, hvisits.formed⟩
      · exact happend ▸ hvisits.listed
      · rw [← happend, List.length_cons]
        rcases hvisits.stops with hfull | ⟨hlt, hall⟩
        · exact .inl (by omega)
        · exact .inr ⟨by omega, hall⟩
      · unfold visit
        rw [if_neg hseen, if_neg hinside]
        have hlines : (Formed.linesOf ((a, formed) :: blocks)).toArray =
            (formed.lines a).toArray ++ (Formed.linesOf blocks).toArray := by
          simp [Formed.linesOf]
        have hcount : count + ((a, formed) :: blocks).length = count + 1 + blocks.length := by
          simp; omega
        rw [hlines, hcount]
        exact .seq (form_prints hform) (.bind (showBlock_prints a formed) hprints)

/-- The run of a whole walk. -/
theorem walk_prints {limits : Limits} (hentry : (image.offset? entry).isSome)
    (haligned : entry % 4 = 0)
    (hforms : ∀ (xs : List (BitVec 64)) (a : BitVec 64),
      Listed (g.nexts image (Nat.max 1 limits.maxInsns)) entry (xs ++ [a]) →
      xs.length < limits.maxBlocks →
      ∃ formed, (g.form image a (Nat.max 1 limits.maxInsns)).exec.1 = .ok formed) :
    ∃ blocks, Visits g image (Nat.max 1 limits.maxInsns) entry [] limits.maxBlocks blocks ∧
      Prints (g.walk image entry limits) ()
        (Formed.linesOf blocks ++ [s!"Decoded {blocks.length} block(s)"]).toArray := by
  obtain ⟨blocks, hvisits, hprints⟩ := visit_prints hforms 0 (.start hentry) (Nat.zero_add _)
  refine ⟨blocks, hvisits, ?_⟩
  rw [← List.append_toArray]
  rw [Nat.zero_add] at hprints
  have hinside : (image.offset? entry).isNone = false := by
    simpa [Option.isSome_iff_ne_none] using hentry
  unfold walk
  simp only [hinside, haligned, Bool.false_eq_true, ↓reduceIte, ne_eq, not_true_eq_false]
  exact .bind hprints (prints_print _)

/-- A walk prints the blocks of the first addresses in breadth-first order, each once; where there
are fewer than allowed, they are all that the entry leads to. -/
theorem walk_breadthFirst (g : Guest) (image : Image) (entry : BitVec 64) (limits : Limits)
    (hentry : (image.offset? entry).isSome) (haligned : entry % 4 = 0)
    (hforms : ∀ a ∈ (breadthFirst (g.nexts image (Nat.max 1 limits.maxInsns)) entry
        limits.maxBlocks).take limits.maxBlocks,
      ∃ formed, (g.form image a (Nat.max 1 limits.maxInsns)).exec.1 = .ok formed) :
    ∃ blocks : List (BitVec 64 × Formed),
      (∀ b ∈ blocks, (g.form image b.1 (Nat.max 1 limits.maxInsns)).exec.1 = .ok b.2) ∧
      (g.walk image entry limits).exec.1 = .ok () ∧
      (g.walk image entry limits).exec.2.printed =
        (Formed.linesOf blocks ++ [s!"Decoded {blocks.length} block(s)"]).toArray ∧
      (∀ distance ≥ limits.maxBlocks, blocks.map Prod.fst =
        (breadthFirst (g.nexts image (Nat.max 1 limits.maxInsns)) entry distance).take
          limits.maxBlocks) ∧
      (blocks.map Prod.fst).Nodup ∧
      (blocks.length < limits.maxBlocks → ∀ a, a ∈ blocks.map Prod.fst ↔
        Relation.ReflTransGen (fun a b => b ∈ g.nexts image (Nat.max 1 limits.maxInsns) a)
          entry a) := by
  obtain ⟨blocks, hvisits, hprints⟩ := walk_prints hentry haligned fun xs a hlisted hlt =>
    have hlength : (xs ++ [a]).length ≤ limits.maxBlocks := by
      rw [List.length_append]
      exact hlt
    hforms a ((hlisted.prefix_take hlength (Nat.le_refl _)).subset (by simp))
  have hlisted : Listed _ entry (blocks.map Prod.fst) := hvisits.listed
  have hstops := hvisits.stops
  rw [List.nil_append] at hstops
  refine ⟨blocks, hvisits.formed, hprints.exec_eq.1, hprints.exec_eq.2, ?_, hlisted.nodup, ?_⟩
  · intro distance hdistance
    have hle : blocks.length ≤ limits.maxBlocks := by omega
    have hprefix := hlisted.prefix_take (by simpa using hle) hdistance
    refine hprefix.eq_of_length_le ?_
    rcases hstops with hfull | ⟨-, hclosed⟩
    · rw [List.length_map, hfull]
      exact List.length_take_le _ _
    · have htake := List.take_prefix limits.maxBlocks
        (breadthFirst (g.nexts image (Nat.max 1 limits.maxInsns)) entry distance)
      exact (htake.trans (breadthFirst_of_closed hclosed _)).length_le
  · intro hlt a
    have hclosed := (hstops.resolve_left (by omega)).2
    exact ⟨hlisted.reachable, mem_of_reachable hclosed⟩

/-- A branch over a return to a branch back: the walk ends by itself. -/
theorem walk_breadthFirst_loop :
    let g : Guest := { arch := .ppc64 }
    let image : Image :=
      ⟨0x1000, ⟨#[0x41, 0x82, 0, 12, 0x60, 0, 0, 0, 0x4E, 0x80, 0, 0x20, 0x4B, 0xFF, 0xFF, 0xF4]⟩⟩
    ∃ blocks : List (BitVec 64 × Formed),
      (∀ b ∈ blocks, (g.form image b.1 2).exec.1 = .ok b.2) ∧
      (g.walk image 0x1000 ⟨4, 2⟩).exec.1 = .ok () ∧
      (g.walk image 0x1000 ⟨4, 2⟩).exec.2.printed =
        (Formed.linesOf blocks ++ [s!"Decoded {blocks.length} block(s)"]).toArray ∧
      blocks.map Prod.fst = [0x1000, 0x100C, 0x1004] ∧
      ∀ a, a ∈ blocks.map Prod.fst ↔
        Relation.ReflTransGen (fun a b => b ∈ g.nexts image 2 a) 0x1000 a := by
  intro g image
  have hentry : g.nexts image 2 0x1000 = [0x100C, 0x1004] := by decide +kernel
  have hback : g.nexts image 2 0x100C = [0x100C, 0x1004] := by decide +kernel
  have hreturn : g.nexts image 2 0x1004 = [] := by decide +kernel
  have hclosed : (trail (g.nexts image 2) 0x1000 [0x1000, 0x100C, 0x1004]).eraseDups =
      [0x1000, 0x100C, 0x1004] := by
    simp only [trail, List.flatMap_cons, List.flatMap_nil, hentry, hback, hreturn]
    decide
  have hnear : breadthFirst (g.nexts image 2) 0x1000 2 = [0x1000, 0x100C, 0x1004] := by
    have hroot : breadthFirst (g.nexts image 2) 0x1000 1 = [0x1000] := rfl
    rw [breadthFirst_succ, hroot, trail, List.flatMap_singleton, hentry]
    decide
  have horder : breadthFirst (g.nexts image 2) 0x1000 4 = [0x1000, 0x100C, 0x1004] := by
    rw [breadthFirst_succ, breadthFirst_succ, hnear, hclosed, hclosed]
  have hforms : ∀ a ∈ (breadthFirst (g.nexts image 2) 0x1000 4).take 4,
      ∃ formed, (g.form image a 2).exec.1 = .ok formed := by
    intro a ha
    have hok : (g.form image a 2).exec.1.isOk = true := by
      rw [horder] at ha
      simp only [List.take, List.mem_cons, List.not_mem_nil, or_false] at ha
      rcases ha with rfl | rfl | rfl
      · decide +kernel
      · decide +kernel
      · decide +kernel
    cases hform : (g.form image a 2).exec.1 with
    | ok formed => exact ⟨formed, rfl⟩
    | error failure => simp [hform, Except.isOk, Except.toBool] at hok
  obtain ⟨blocks, hformed, hok, hprinted, hfirst, -, hall⟩ :=
    walk_breadthFirst g image 0x1000 ⟨4, 2⟩ (by decide) (by decide) hforms
  have haddresses : blocks.map Prod.fst = [0x1000, 0x100C, 0x1004] :=
    (hfirst 4 (Nat.le_refl 4)).trans (congrArg (List.take 4) horder)
  have hlength : blocks.length = 3 := by
    simpa using congrArg List.length haddresses
  exact ⟨blocks, hformed, hok, hprinted, haddresses, hall (by simp [hlength])⟩

end Guest

end PowerLift
