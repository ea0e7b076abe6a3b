import VirtualCatalog.Machine.Basic
import Mathlib.Data.List.Perm.Basic
import Mathlib.Tactic.SplitIfs

/-!
# Handing out pieces to workers

Workers share a queue of pieces of work.  Each takes a piece when it holds none that is unfinished,
and hands on what it holds in slices of at most `limit` rows.

* `Slice` : a run of rows of a piece; `Slice.rows` : which ones.
* `handing` : the machine, whose steps are those of single workers.
* `Handout.Ok` : no row is lost, none is handed on twice, and each worker keeps the order of the
  queue.
* `Handout.Ok.perm_of_finished`, `Handout.Ok.eq_of_finished` : once the workers are through, what
  was handed on is everything; a single worker hands it on in order.
-/

namespace VirtualCatalog

/-- `count` rows of a piece from `offset` on. -/
structure Slice (P : Type*) where
  piece : P
  offset : Nat
  count : Nat

/-- The rows of a slice: the piece, and the position of each row in it. -/
def Slice.rows {P : Type*} (slice : Slice P) : List (P × Nat) :=
  (List.range' slice.offset slice.count).map (slice.piece, ·)

/-- A worker. -/
inductive Worker (P : Type*) where
  /-- It has not begun. -/
  | fresh
  /-- It holds a piece, of which it has handed on the rows before `offset`. -/
  | holds (piece : P) (offset : Nat)
  /-- It found the queue empty. -/
  | drained

/-- The queue, the workers and what was handed on, by whom, the oldest first. -/
structure Handout (P : Type*) where
  queue : List P
  workers : List (Worker P)
  given : List (Nat × Slice P) := []

/-- The steps of a worker. -/
inductive Handout.Label where
  /-- It begins, with a first piece. -/
  | init (worker : Nat)
  /-- It hands on a slice, of a new piece if it is through with its own. -/
  | emit (worker : Nat)

section

variable {P : Type*} (size : P → Nat) (limit : Nat)

/-- The slice that a worker hands on at `offset`. -/
def sliceAt (piece : P) (offset : Nat) : Slice P := ⟨piece, offset, min limit (size piece - offset)⟩

namespace Handout

variable (s : Handout P)

/-- The state before anything happened, with `threads` workers. -/
def start (threads : Nat) (pieces : List P) : Handout P :=
  ⟨pieces, List.replicate threads .fresh, []⟩

/-- The queue without the empty pieces at its front. -/
def pending : List P := s.queue.dropWhile fun piece => size piece == 0

/-- The worker takes the next piece that is not empty. -/
def take (worker : Nat) : Handout P :=
  match s.pending size with
  | [] => { s with queue := [], workers := s.workers.set worker .drained }
  | piece :: queue => { s with queue, workers := s.workers.set worker (.holds piece 0) }

/-- The worker hands on the next slice of what it holds, if it holds anything. -/
def give (worker : Nat) : Handout P :=
  match s.workers[worker]? with
  | some (.holds piece offset) => { s with
      workers := s.workers.set worker
        (.holds piece (offset + (sliceAt size limit piece offset).count))
      given := s.given ++ [(worker, sliceAt size limit piece offset)] }
  | _ => s

/-- One step. -/
def next : Label → Option (Handout P)
  | .init worker =>
    match s.workers[worker]? with
    | some .fresh => some (s.take size worker)
    | _ => none
  | .emit worker =>
    match s.workers[worker]? with
    | some (.holds piece offset) =>
      if size piece ≤ offset then some ((s.take size worker).give size limit worker)
      else some (s.give size limit worker)
    | some .drained => some s
    | _ => none

end Handout

/-- The machine of the workers. -/
def handing : Machine (Handout P) Handout.Label := ⟨Handout.next size limit⟩

/-! ### Rows -/

/-- All rows of a piece. -/
def allRows (piece : P) : List (P × Nat) := (List.range (size piece)).map (piece, ·)

/-- The rows a worker holds that it has not handed on. -/
def Worker.rows : Worker P → List (P × Nat)
  | .holds piece offset => (List.range' offset (size piece - offset)).map (piece, ·)
  | _ => []

namespace Handout

/-- The rows that were handed on. -/
def givenRows (s : Handout P) : List (P × Nat) := s.given.flatMap fun g => g.2.rows

/-- The rows that one worker has handed on. -/
def givenBy (s : Handout P) (worker : Nat) : List (P × Nat) :=
  (s.given.filter fun g => g.1 = worker).flatMap fun g => g.2.rows

/-- The rows that one worker holds. -/
def heldBy (s : Handout P) (worker : Nat) : List (P × Nat) :=
  (s.workers[worker]?.map (Worker.rows size)).getD []

/-- The rows that no worker has taken. -/
def queued (s : Handout P) : List (P × Nat) := s.queue.flatMap (allRows size)

/-- The rows that are not handed on yet. -/
def left (s : Handout P) : List (P × Nat) :=
  s.workers.flatMap (Worker.rows size) ++ s.queued size

/-- The invariant. -/
structure Ok (pieces : List P) (s : Handout P) : Prop where
  /-- Nothing is lost and nothing is there twice. -/
  rows : (s.givenRows ++ s.left size).Perm (pieces.flatMap (allRows size))
  /-- Each worker keeps the order. -/
  order : ∀ worker, (s.givenBy worker ++ s.heldBy size worker ++ s.queued size).Sublist
    (pieces.flatMap (allRows size))
  drained : .drained ∈ s.workers → s.queue = []
  slices : ∀ g ∈ s.given, g.2.piece ∈ pieces ∧ 0 < g.2.count ∧ g.2.count ≤ limit ∧
    g.2.offset + g.2.count ≤ size g.2.piece
  givers : ∀ g ∈ s.given, g.1 < s.workers.length
  queue : ∀ piece ∈ s.queue, piece ∈ pieces
  held : ∀ piece offset, .holds piece offset ∈ s.workers → piece ∈ pieces

end Handout

/-! ### Taking and giving -/

variable {size limit}

/-- Replacing one element of a list moves only what that element stands for. -/
theorem flatMap_set_perm {α β : Type*} (f : α → List β) {l : List α} {i : Nat} {a : α}
    (h : l[i]? = some a) (b : α) :
    ((l.set i b).flatMap f ++ f a).Perm (l.flatMap f ++ f b) := by
  induction l generalizing i with
  | nil => cases h
  | cons c l ih =>
    cases i with
    | zero =>
      obtain rfl := Option.some.inj h
      rw [List.set_cons_zero, List.flatMap_cons, List.flatMap_cons]
      refine List.perm_append_comm.trans ?_
      rw [List.append_assoc]
      exact List.perm_append_comm.append_left _
    | succ i =>
      rw [List.set_cons_succ, List.flatMap_cons, List.flatMap_cons, List.append_assoc,
        List.append_assoc]
      exact (ih h).append_left _

theorem flatMap_dropWhile (queue : List P) :
    (queue.dropWhile fun piece => size piece == 0).flatMap (allRows size) =
      queue.flatMap (allRows size) := by
  induction queue with
  | nil => rfl
  | cons piece queue ih =>
    by_cases h : size piece = 0
    · rw [List.dropWhile_cons_of_pos (by simpa using h), ih, List.flatMap_cons, allRows, h]
      rfl
    · rw [List.dropWhile_cons_of_neg (by simpa using h)]

variable (size limit) in
/-- What a worker hands on next, and what it holds after that. -/
theorem sliceAt_rows (piece : P) (offset : Nat) :
    (sliceAt size limit piece offset).rows ++
        (Worker.holds piece (offset + (sliceAt size limit piece offset).count)).rows size =
      (Worker.holds piece offset).rows size := by
  have hle : min limit (size piece - offset) ≤ size piece - offset := Nat.min_le_right _ _
  show (List.range' offset (min limit (size piece - offset))).map (piece, ·) ++
    (List.range' (offset + min limit (size piece - offset))
      (size piece - (offset + min limit (size piece - offset)))).map (piece, ·) = _
  rw [← List.map_append, List.range'_append_1, Worker.rows]
  congr 2
  omega

namespace Handout

variable {pieces : List P} {s s' : Handout P} {worker : Nat}

theorem heldBy_set (w : Worker P) (hw : worker < s.workers.length) (other : Nat) (queue : List P)
    (given : List (Nat × Slice P)) :
    (⟨queue, s.workers.set worker w, given⟩ : Handout P).heldBy size other =
      if worker = other then w.rows size else s.heldBy size other := by
  unfold heldBy
  split_ifs with h
  · subst h
    rw [List.getElem?_set_self hw]
    rfl
  · rw [List.getElem?_set_ne h]

theorem queued_pending (s : Handout P) :
    (s.pending size).flatMap (allRows size) = s.queued size :=
  flatMap_dropWhile s.queue

/-- Taking a piece moves its rows from the queue to the worker. -/
theorem left_take {w : Worker P} (hw : s.workers[worker]? = some w) (hnone : w.rows size = []) :
    ((s.take size worker).left size).Perm (s.left size) := by
  unfold Handout.take
  split
  next hp =>
    have hempty : s.queued size = [] := by rw [← queued_pending, hp]; rfl
    have hset := flatMap_set_perm (Worker.rows size) hw .drained
    rw [hnone, List.append_nil] at hset
    rw [left, left, hempty]
    exact (hset.trans (by simp [Worker.rows])).append_right _
  next piece queue hp =>
    have hnew : (Worker.holds piece 0).rows size = allRows size piece := by
      rw [Worker.rows, allRows, List.range_eq_range', Nat.sub_zero]
    have hset := flatMap_set_perm (Worker.rows size) hw (.holds piece 0)
    rw [hnone, List.append_nil, hnew] at hset
    rw [left, left, ← queued_pending s, hp, List.flatMap_cons, ← List.append_assoc]
    exact hset.append_right _

theorem give_eq {piece : P} {offset : Nat}
    (hw : s.workers[worker]? = some (.holds piece offset)) :
    s.give size limit worker = { s with
      workers := s.workers.set worker
        (.holds piece (offset + (sliceAt size limit piece offset).count))
      given := s.given ++ [(worker, sliceAt size limit piece offset)] } := by
  unfold Handout.give
  rw [hw]

variable (size limit) in
/-- A slice that is handed on was held. -/
theorem left_give {piece : P} {offset : Nat}
    (hw : s.workers[worker]? = some (.holds piece offset)) :
    ((sliceAt size limit piece offset).rows ++ (s.give size limit worker).left size).Perm
      (s.left size) := by
  have hset := flatMap_set_perm (Worker.rows size) hw
    (.holds piece (offset + (sliceAt size limit piece offset).count))
  rw [← sliceAt_rows size limit piece offset, ← List.append_assoc] at hset
  have hmoved := List.perm_append_comm.trans ((List.perm_append_right_iff _).1 hset)
  rw [give_eq hw, left, left, ← List.append_assoc]
  exact hmoved.append_right _

/-- Taking a piece keeps the invariant, for a worker that holds nothing. -/
theorem Ok.take (h : s.Ok size limit pieces) {w : Worker P} (hw : s.workers[worker]? = some w)
    (hnone : w.rows size = []) : (s.take size worker).Ok size limit pieces := by
  obtain ⟨hlt, -⟩ := List.getElem?_eq_some_iff.1 hw
  have hheld : s.heldBy size worker = [] := by
    rw [heldBy, hw]
    exact hnone
  have hrows := left_take hw hnone
  have hpending : ∀ piece ∈ s.pending size, piece ∈ pieces := fun piece hp =>
    h.queue piece ((List.dropWhile_sublist _).subset hp)
  revert hrows
  unfold Handout.take
  split
  -- the queue is empty: the worker is drained
  next hp =>
    intro hrows
    refine ⟨(hrows.append_left _).trans h.rows, fun other => ?_, fun _ => rfl, h.slices,
      fun g hg => ?_, nofun, fun piece offset hm => ?_⟩
    · refine List.Sublist.trans ?_ (h.order other)
      rw [heldBy_set _ hlt]
      refine List.Sublist.append (List.Sublist.append (List.Sublist.refl _) ?_)
        (List.nil_sublist _)
      split_ifs
      · exact List.nil_sublist _
      · exact List.Sublist.refl _
    · rw [List.length_set]
      exact h.givers g hg
    · rcases List.mem_or_eq_of_mem_set hm with hm | hm
      · exact h.held piece offset hm
      · cases hm
  -- it gets the first piece, whose rows move from the queue into its hands
  next piece queue hp =>
    intro hrows
    have hsplit : allRows size piece ++ queue.flatMap (allRows size) = s.queued size := by
      rw [← queued_pending s, hp, List.flatMap_cons]
    refine ⟨(hrows.append_left _).trans h.rows, fun other => ?_, fun hm => ?_, h.slices,
      fun g hg => ?_, fun p hm => ?_, fun p offset hm => ?_⟩
    · refine List.Sublist.trans ?_ (h.order other)
      rw [heldBy_set _ hlt, ← hsplit]
      split_ifs with hother
      · subst hother
        rw [hheld, List.append_nil, Worker.rows, Nat.sub_zero, ← List.range_eq_range',
          List.append_assoc]
        exact List.Sublist.refl _
      · exact List.Sublist.append (List.Sublist.refl _) (List.sublist_append_right _ _)
    · rcases List.mem_or_eq_of_mem_set hm with hm | hm
      · have hnil : s.pending size = [] := by rw [pending, h.drained hm]; rfl
        rw [hnil] at hp
        cases hp
      · cases hm
    · rw [List.length_set]
      exact h.givers g hg
    · exact hpending p (hp ▸ List.mem_cons_of_mem _ hm)
    · rcases List.mem_or_eq_of_mem_set hm with hm | hm
      · exact h.held p offset hm
      · cases hm
        exact hpending _ (hp ▸ List.mem_cons_self)

/-- Giving a slice keeps the invariant, for a worker that is not through with its piece. -/
theorem Ok.give (h : s.Ok size limit pieces) (hlimit : 0 < limit) {piece : P} {offset : Nat}
    (hw : s.workers[worker]? = some (.holds piece offset)) (hmore : offset < size piece) :
    (s.give size limit worker).Ok size limit pieces := by
  obtain ⟨hlt, -⟩ := List.getElem?_eq_some_iff.1 hw
  have hleft := left_give size limit hw
  have hheld : s.heldBy size worker = (Worker.holds piece offset).rows size := by
    rw [heldBy, hw]
    rfl
  rw [give_eq hw] at hleft ⊢
  refine ⟨?_, fun other => ?_, fun hm => ?_, fun g hg => ?_, fun g hg => ?_, h.queue,
    fun p o hm => ?_⟩
  · refine List.Perm.trans ?_ h.rows
    rw [givenRows, List.flatMap_append, List.flatMap_singleton, List.append_assoc]
    exact hleft.append_left _
  · refine List.Sublist.trans ?_ (h.order other)
    rw [heldBy_set _ hlt]
    split_ifs with hother
    · subst hother
      rw [hheld, ← sliceAt_rows size limit piece offset, givenBy, List.filter_append,
        List.flatMap_append]
      simp [givenBy, queued]
    · have hgiven : (⟨s.queue, s.workers.set worker
          (.holds piece (offset + (sliceAt size limit piece offset).count)),
          s.given ++ [(worker, sliceAt size limit piece offset)]⟩ : Handout P).givenBy other =
          s.givenBy other := by
        simp [givenBy, hother]
      rw [hgiven]
      exact List.Sublist.refl _
  · rcases List.mem_or_eq_of_mem_set hm with hm | hm
    · exact h.drained hm
    · cases hm
  · rcases List.mem_append.1 hg with hg | hg
    · exact h.slices g hg
    · rw [List.mem_singleton.1 hg]
      refine ⟨h.held piece offset (List.mem_of_getElem? hw), ?_, Nat.min_le_left _ _, ?_⟩
      · exact Nat.lt_min.2 ⟨hlimit, by omega⟩
      · have : min limit (size piece - offset) ≤ size piece - offset := Nat.min_le_right _ _
        show offset + min limit (size piece - offset) ≤ size piece
        omega
  · rw [List.length_set]
    rcases List.mem_append.1 hg with hg | hg
    · exact h.givers g hg
    · rw [List.mem_singleton.1 hg]
      exact hlt
  · rcases List.mem_or_eq_of_mem_set hm with hm | hm
    · exact h.held p o hm
    · cases hm
      exact h.held piece offset (List.mem_of_getElem? hw)

/-! ### Whole runs -/

/-- A worker that takes finds the queue empty or holds a piece that is not empty. -/
theorem take_workers (size : P → Nat) (s : Handout P) (worker : Nat) :
    ∃ w, (s.take size worker).workers = s.workers.set worker w ∧
      (w = .drained ∨ ∃ piece, w = .holds piece 0 ∧ 0 < size piece) := by
  unfold Handout.take
  split
  next => exact ⟨.drained, rfl, .inl rfl⟩
  next piece queue hp =>
    have hne := List.head?_dropWhile_not (fun piece => size piece == 0) s.queue
    rw [show s.queue.dropWhile (fun piece => size piece == 0) = piece :: queue from hp] at hne
    exact ⟨.holds piece 0, rfl, .inr ⟨piece, rfl, Nat.pos_of_ne_zero (by simpa using hne)⟩⟩

/-- A worker that found the queue empty gives nothing. -/
theorem give_of_not_holds (hw : ∀ piece offset, s.workers[worker]? ≠ some (.holds piece offset)) :
    s.give size limit worker = s := by
  unfold Handout.give
  split
  next piece offset h => exact absurd h (hw piece offset)
  next => rfl

/-- Every step keeps the invariant. -/
theorem Ok.step (h : s.Ok size limit pieces) (hlimit : 0 < limit) {l : Label}
    (hs : (handing size limit).next s l = some s') : s'.Ok size limit pieces := by
  cases l with
  | init worker =>
    simp only [handing, next] at hs
    split at hs
    next hw =>
      obtain rfl := Option.some.inj hs
      exact h.take hw rfl
    · cases hs
  | emit worker =>
    simp only [handing, next] at hs
    split at hs
    next piece offset hw =>
      split_ifs at hs with hdone
      · obtain rfl := Option.some.inj hs
        have hnone : (Worker.holds piece offset).rows size = [] := by
          rw [Worker.rows, Nat.sub_eq_zero_of_le hdone]
          rfl
        obtain ⟨hlt, -⟩ := List.getElem?_eq_some_iff.1 hw
        have htaken := h.take hw hnone
        obtain ⟨w, hset, hw'⟩ := take_workers size s worker
        have hget : (s.take size worker).workers[worker]? = some w := by
          rw [hset, List.getElem?_set_self hlt]
        rcases hw' with rfl | ⟨p, rfl, hpos⟩
        · rwa [give_of_not_holds fun p o hp => by rw [hget] at hp; cases hp]
        · exact htaken.give hlimit hget hpos
      · obtain rfl := Option.some.inj hs
        exact h.give hlimit hw (by omega)
    next =>
      obtain rfl := Option.some.inj hs
      exact h
    · cases hs

theorem Ok.start (threads : Nat) (pieces : List P) :
    (start threads pieces).Ok size limit pieces := by
  have hfresh : ∀ w ∈ List.replicate threads (Worker.fresh (P := P)), w = .fresh := fun w hw =>
    (List.mem_replicate.1 hw).2
  have hrows : (List.replicate threads (Worker.fresh (P := P))).flatMap (Worker.rows size) = [] :=
    List.flatMap_eq_nil_iff.2 fun w hw => by rw [hfresh w hw]; rfl
  refine ⟨?_, fun worker => ?_, fun hm => ?_, nofun, nofun, fun _ h => h, fun p o hm => ?_⟩
  · rw [left,
      show (Handout.start threads pieces).workers.flatMap (Worker.rows size) = [] from hrows]
    exact List.Perm.refl _
  · have hheld : (Handout.start threads pieces).heldBy size worker = [] := by
      unfold heldBy
      cases hw : (Handout.start threads pieces).workers[worker]? with
      | none => rfl
      | some w => rw [hfresh w (List.mem_of_getElem? hw)]; rfl
    rw [hheld]
    exact List.Sublist.refl _
  · exact absurd (hfresh _ hm) nofun
  · exact absurd (hfresh _ hm) nofun

/-- The invariant of every reachable state. -/
theorem Ok.reachable (hlimit : 0 < limit) {threads : Nat}
    (h : (handing size limit).ReachableBy Machine.Free (Handout.start threads pieces) s) :
    s.Ok size limit pieces :=
  h.invariant (.start threads pieces) fun _ _ _ hs _ hn => hs.step hlimit hn

theorem length_workers_take (size : P → Nat) (s : Handout P) (worker : Nat) :
    (s.take size worker).workers.length = s.workers.length := by
  unfold Handout.take
  split <;> exact List.length_set

theorem length_workers_give (size : P → Nat) (limit : Nat) (s : Handout P) (worker : Nat) :
    (s.give size limit worker).workers.length = s.workers.length := by
  unfold Handout.give
  split
  · exact List.length_set
  · rfl

/-- Workers neither come nor go. -/
theorem length_workers {threads : Nat}
    (h : (handing size limit).ReachableBy Machine.Free (Handout.start threads pieces) s) :
    s.workers.length = threads := by
  refine h.invariant (I := fun s => s.workers.length = threads) List.length_replicate ?_
  intro s l s' hlen _ hs
  cases l with
  | init worker =>
    simp only [handing, next] at hs
    split at hs
    · cases hs
      rw [length_workers_take, hlen]
    · cases hs
  | emit worker =>
    simp only [handing, next] at hs
    split at hs
    · split_ifs at hs
      · cases hs
        rw [length_workers_give, length_workers_take, hlen]
      · cases hs
        rw [length_workers_give, hlen]
    · cases hs
      exact hlen
    · cases hs

/-- The workers that began have found the queue empty, and one has begun. -/
def Finished (s : Handout P) : Prop :=
  .drained ∈ s.workers ∧ ∀ w ∈ s.workers, w = .fresh ∨ w = .drained

/-- When the workers are through, everything was handed on, and nothing twice. -/
theorem Ok.perm_of_finished (h : s.Ok size limit pieces) (hs : s.Finished) :
    s.givenRows.Perm (pieces.flatMap (allRows size)) := by
  have hheld : s.workers.flatMap (Worker.rows size) = [] :=
    List.flatMap_eq_nil_iff.2 fun w hw => by rcases hs.2 w hw with rfl | rfl <;> rfl
  have hleft : s.left size = [] := by
    rw [left, hheld, queued, h.drained hs.1]
    rfl
  have hrows := h.rows
  rwa [hleft, List.append_nil] at hrows

/-- A single worker hands everything on in order. -/
theorem Ok.eq_of_finished (h : s.Ok size limit pieces) (hs : s.Finished)
    (hsingle : s.workers.length = 1) : s.givenRows = pieces.flatMap (allRows size) := by
  have hby : s.givenBy 0 = s.givenRows := by
    unfold givenBy givenRows
    rw [List.filter_eq_self.2 fun g hg => ?_]
    have := h.givers g hg
    exact decide_eq_true (by omega)
  have hsub : (s.givenBy 0).Sublist (pieces.flatMap (allRows size)) :=
    List.Sublist.trans ((List.sublist_append_left _ _).trans (List.sublist_append_left _ _))
      (h.order 0)
  rw [hby] at hsub
  exact hsub.eq_of_length (h.perm_of_finished hs).length_eq

end Handout

end

end VirtualCatalog
