import VirtualCatalog.Bridge.Lookup

/-!
# The count of uncommitted DDL is exact

The book counts the changes of the grants that a rollback would undo; each session pushes them on a
log of its own.  The counter goes up by one with every push and down by a whole log when a session
ends its transaction or is destroyed.

* `Bridge.openUndos` : how many entries the logs of the open sessions have.
* `Registry.Counted` : the invariant: every book counts the entries of its sessions.
* `uncommittedDdl_exact` : so it does in every reachable registry, and no decrement takes more than
  is there.
-/

namespace VirtualCatalog

/-- The entries of the logs of the open sessions. -/
def Bridge.openUndos (bridge : Bridge) : Nat :=
  ((bridge.sessions.filter fun session => !session.destroyed).map
    fun session => session.grantUndo.length).sum

/-- The session has ended its transaction, or is gone. -/
def DuckDBSession.Ended (session : DuckDBSession) : Prop :=
  session.conn = none ∨ session.destroyed = true

namespace Live

variable {s : Live}

/-- Nobody has entries but the open sessions. -/
theorem sum_open (h : ∀ session ∈ s.sessions, session.destroyed = true → session.grantUndo = []) :
    ((s.sessions.filter fun session => !session.destroyed).map
      fun session => session.grantUndo.length).sum = s.logged := by
  rw [logged]
  generalize s.sessions = sessions at h ⊢
  induction sessions with
  | nil => rfl
  | cons session sessions ih =>
    obtain ⟨hhead, htail⟩ := List.forall_mem_cons.1 h
    rw [List.map_cons, List.sum_cons, ← ih htail]
    cases hd : session.destroyed with
    | false =>
      rw [List.filter_cons_of_pos (by rw [hd]; rfl)]
      rfl
    | true =>
      rw [List.filter_cons_of_neg (by rw [hd]; decide), hhead hd]
      exact (Nat.zero_add _).symm

end Live

namespace Registry

variable {s s' : Registry} {agent : Agent} {nonce : String}

/-- Every book counts the entries of its sessions, and every session is linked. -/
def Counted (s : Registry) : Prop := ∀ b bridge, s.bridges b = some bridge → (s.liveOf bridge).Sound

/-- The context does not matter. -/
theorem sound_liveOf {bridge bridge' : Bridge} (h : (s.liveOf bridge).Sound)
    (hcount : bridge'.book.uncommittedDdl = bridge.book.uncommittedDdl)
    (hsessions : bridge'.sessions = bridge.sessions) : (s'.liveOf bridge').Sound := by
  refine ⟨?_, fun i session hi => h.linked i session ?_⟩
  · show bridge'.book.uncommittedDdl = (bridge'.sessions.map _).sum
    rw [hcount, hsessions]
    exact h.count
  · rw [← hi]
    show bridge.sessions[i]? = bridge'.sessions[i]?
    rw [hsessions]

/-- A move that leaves the books alone. -/
theorem Counted.same (h : s.Counted) (hb : s'.bridges = s.bridges) : s'.Counted := fun b bridge hb' =>
  sound_liveOf (h b bridge (hb ▸ hb')) rfl rfl

/-- A move that changes one book. -/
theorem Counted.setBridge (h : s.Counted) {b : Nat} {bridge : Bridge}
    (hb : s'.bridges = (s.setBridge b bridge).bridges) (hsound : (s.liveOf bridge).Sound) :
    s'.Counted := by
  intro b' bridge' hb'
  rw [hb, bridges_setBridge] at hb'
  split_ifs at hb'
  · cases hb'
    exact sound_liveOf hsound rfl rfl
  · exact sound_liveOf (h b' bridge' hb') rfl rfl

/-- A move that changes neither the count nor the sessions of a book. -/
theorem Counted.kept (h : s.Counted) {b : Nat} {bridge bridge' : Bridge}
    (hb : s.bridges b = some bridge) (hs : s'.bridges = (s.setBridge b bridge').bridges)
    (hcount : bridge'.book.uncommittedDdl = bridge.book.uncommittedDdl)
    (hsessions : bridge'.sessions = bridge.sessions) : s'.Counted :=
  h.setBridge hs (sound_liveOf (h b bridge hb) hcount hsessions)

theorem Counted.move (h : s.Counted) (hm : Move agent s s') : s'.Counted := by
  cases hm with
  | attach id p =>
    intro b bridge hb
    rw [bridges_attach] at hb
    split_ifs at hb
    · cases hb
      exact (Live.Fresh.mk rfl rfl).sound
    · exact sound_liveOf (h b bridge hb) rfl rfl
  | destroySource b bridge hb =>
    obtain ⟨live, heq⟩ := s.destroySource_eq b bridge
    rw [heq]
    exact h.kept hb rfl rfl rfl
  | commitLive call commit entry bridge book _ _ _ hl _ hok =>
    obtain ⟨-, -, state, -, -, rfl⟩ := commitPolicy_ok_iff.1 hok
    exact h.kept (bridges_of_liveBridge hl).2.1 rfl rfl rfl
  | finalizeLive b bridge hb => exact h.kept hb rfl rfl rfl
  | session b bridge hb after label _ _ hs =>
    have hafter := (h b bridge hb).next hs
    exact h.setBridge rfl ⟨hafter.count, hafter.linked⟩
  | holds b bridge hb n => exact h.kept hb rfl rfl rfl
  | wrongToken id token p =>
    refine h.same ?_
    rw [wrongToken]
    split_ifs <;> rfl
  | _ => exact h.same rfl

theorem Counted.moves (h : s.Counted) (hm : Moves agent s s') : s'.Counted := by
  induction hm with
  | refl => exact h
  | tail _ hm ih => exact ih.move hm

/-- **The count of uncommitted DDL is exact.**  In every reachable registry, and for each of its
books, it is the number of entries in the logs of the open sessions; no log has more entries than
it, so that the decrement that ends a transaction does not wrap, and it is zero once every session
has ended its own. -/
theorem uncommittedDdl_exact (h : (registryMachine nonce).ReachableBy Machine.Free {} s) {b : Nat}
    {bridge : Bridge} (hb : s.bridges b = some bridge) :
    bridge.book.uncommittedDdl = bridge.openUndos ∧
      (∀ session ∈ bridge.sessions, session.grantUndo.length ≤ bridge.book.uncommittedDdl) ∧
        ((∀ session ∈ bridge.sessions, session.Ended) → bridge.book.uncommittedDdl = 0) := by
  have hempty : Counted {} := fun b bridge hb => by cases hb
  have hsound : (s.liveOf bridge).Sound :=
    h.invariant hempty (fun _ _ _ hi _ hs => hi.moves (next_moves hs)) b bridge hb
  have hlinked : ∀ session ∈ bridge.sessions, ∃ i, session.Linked i := by
    intro session hmem
    obtain ⟨i, hi⟩ := List.mem_iff_getElem?.1 hmem
    exact ⟨i, hsound.linked i session hi⟩
  have hclosed : ∀ session ∈ bridge.sessions, session.Ended → session.grantUndo = [] := by
    intro session hmem hended
    obtain ⟨i, hl⟩ := hlinked session hmem
    rcases hended with hconn | hd
    · by_contra hne
      have hsome := hl.undo hne
      rw [hconn] at hsome
      cases hsome
    · exact (hl.destroyed hd).1
  have hcount : bridge.book.uncommittedDdl = (s.liveOf bridge).logged := hsound.count
  refine ⟨?_, fun session hmem => ?_, fun hended => ?_⟩
  · rw [hcount]
    exact (Live.sum_open (s := s.liveOf bridge) fun session hmem hd =>
      hclosed session hmem (.inr hd)).symm
  · obtain ⟨i, hi⟩ := List.mem_iff_getElem?.1 hmem
    rw [hcount]
    exact Live.length_le_logged (s := s.liveOf bridge) hi
  · rw [hcount, Live.logged]
    refine List.sum_eq_zero fun n hn => ?_
    obtain ⟨session, hmem, rfl⟩ := List.mem_map.1 hn
    rw [hclosed session hmem (hended session hmem)]
    rfl

namespace Sample

/-- A target attaches, and a session of it has created a table. -/
def creatingTable : List RegistryLabel :=
  resolving ++ [.finish 0, .redeem "b" "token" (.ok ()), .beginSession 0,
    .session 0 0 (.ddl ⟨"s", "t", .create .error⟩ false fun _ => false), .session 0 0 (.run {}),
    .session 0 0 .record]

end Sample

theorem uncommittedDdl_exact_creating : ∃ bridge,
    (Sample.after Sample.creatingTable).bridges 0 = some bridge ∧ bridge.openUndos = 1 ∧
      bridge.book.uncommittedDdl = bridge.openUndos := by
  have run : (registryMachine "n").ReachableBy Machine.Free {} (Sample.after Sample.creatingTable) :=
    ⟨Sample.creatingTable, Machine.run_of_exec rfl⟩
  obtain ⟨bridge, hb⟩ := Option.isSome_iff_exists.1
    (show ((Sample.after Sample.creatingTable).bridges 0).isSome = true from rfl)
  have hone : ((Sample.after Sample.creatingTable).bridges 0).map Bridge.openUndos = some 1 := rfl
  rw [hb] at hone
  exact ⟨bridge, hb, Option.some.inj hone, (uncommittedDdl_exact run hb).1⟩

end Registry

end VirtualCatalog
