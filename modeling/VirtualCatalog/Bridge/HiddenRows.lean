import VirtualCatalog.Bridge.Subqueries

/-!
# Rows that no policy reaches

A row is reached if a verb that is granted shows it.  Over a whole session of a guest, whatever
policies its statements meet, a row that none of them reaches stays where it is, and the guest is
told the same whether it is there or not.

* `Store.reaches` : a granted verb shows the row.
* `edit_of_not_reached`, `yields_eq` : what a statement does to a row, and reads of it.
* `perform_spares`, `perform_alike` : one statement.
* `hidden_untouched` : the rows that are not reached are all still there, in their order.
* `hidden_unread` : two sources that differ only in such rows cannot be told apart.
-/

namespace VirtualCatalog

/-! ### Reached rows -/

section

variable {t : SourceTable} {s : Store} {sem : Semantics} {r : t.Row}

/-- A verb that is granted shows the row. -/
def Store.reaches (s : Store) (sem : Semantics) (r : t.Row) : Bool :=
  [CrossingVerb.select, .update, .delete].any fun v =>
    s.book.grants t.schema t.name v && s.shows sem v r

theorem reaches_of_shows {v : CrossingVerb} (hv : v = .select ∨ v = .update ∨ v = .delete)
    (hgrant : s.book.grants t.schema t.name v = true) (hshows : s.shows sem v r = true) :
    s.reaches sem r = true := by
  rw [Store.reaches, List.any_eq_true]
  refine ⟨v, ?_, by rw [hgrant, hshows]; rfl⟩
  rcases hv with rfl | rfl | rfl <;> simp

/-- Whether a statement changes a row alone. -/
theorem changed_single {statement : CrossingWriteStatement} {seam : Option (List (List Value))}
    {kept : List Scope} (h : statement.selected sem seam r = .ok kept) :
    statement.changed sem seam [r] = .ok (if kept.isEmpty then [] else [r]) := by
  rw [CrossingWriteStatement.selected] at h
  simp only [CrossingWriteStatement.changed, keep, h]
  cases kept <;> rfl

/-- **A write leaves a row alone that the policy does not reach.** -/
theorem edit_of_not_reached {engine : SourceEngine} {target : CrossingWriteTarget}
    {plan : Option (List CrossingFloor)} {built : CrossingWriteStatement} {plans : List FloorPlan}
    {shaped : ShapedWrite} {seam : Option (List (List Value))} {change : Option (List t.Row)}
    (hverb : target.verb = .update ∨ target.verb = .delete) (hschema : t.schema = target.schema)
    (htable : t.name = target.table)
    (hplain : ∀ v p, s.book.usingFor t.schema t.name v = some p →
      PlainPredicate t p ∧ SeamFree built p)
    (hgrant : s.book.grants target.schema target.table target.verb = true)
    (hshaped : (write target plan built).run s = .ok (plans, shaped))
    (hr : s.reaches engine.sem r = false)
    (h : shaped.statement.edit engine target seam r = .ok change) : change = none := by
  obtain ⟨kept, hkept, h⟩ := bind_eq_ok h
  cases kept with
  | nil =>
    cases h
    rfl
  | cons scope more =>
    have hconsulted : ∀ p, s.Consults target p → PlainPredicate t p ∧ SeamFree built p := by
      simp only [Store.Consults, ← hschema, ← htable]
      exact fun p hp => hp.elim (hplain _ p) fun hp => hplain _ p hp.2
    have hlaw := (run_write_reach hverb hschema.symm htable.symm hconsulted hshaped seam).exactly [r] _
      (changed_single hkept)
    rw [List.isEmpty_cons, if_neg Bool.false_ne_true, eq_comm, List.filter_eq_self] at hlaw
    have hshows := hlaw r List.mem_cons_self
    simp only [Store.writeLaw, Bool.and_eq_true] at hshows
    rw [← hschema, ← htable] at hgrant
    rw [reaches_of_shows (by tauto) hgrant hshows.2.1] at hr
    cases hr

/-- A bound floor yields rows that the policy reaches. -/
theorem rows_of_bindFloor {floor : CrossingFloor} {plan : FloorPlan}
    (hplan : s.bindFloor floor = .ok plan) (hschema : t.schema = plan.floor.schema)
    (htable : t.name = plan.floor.table) {rows kept : List t.Row}
    (h : plan.rows sem rows = .ok kept) :
    kept = rows.filter (s.shows sem .select) ∧ s.book.grants t.schema t.name .select = true := by
  obtain ⟨rfl, -⟩ := bindFloor_eq_ok hplan
  constructor
  · have hkept := (rows_bindFloor t sem hplan).exactly rows kept h
    rw [← hschema, ← htable] at hkept
    exact hkept
  · rw [Store.bindFloor] at hplan
    split_ifs at hplan with hgrant
    rwa [hschema, htable]

end

/-! ### Rows that are spared -/

/-- The policy's predicates name columns of the written table, and nothing of the seam. -/
def GuestStatement.Plain (s : Store) (tables : List SourceTable) : GuestStatement → Prop
  | read _ => True
  | write target _ built => ∀ t ∈ tables, t.schema = target.schema → t.name = target.table →
      ∀ v p, s.book.usingFor t.schema t.name v = some p → PlainPredicate t p ∧ SeamFree built p

/-- The hidden rows are still there, in their order. -/
def Spares (hidden : (t : SourceTable) → t.Row → Bool) (t : SourceTable) (rows rows' : List t.Row) :
    Prop := (rows.filter (hidden t)).Sublist rows'

section

variable {hidden : (t : SourceTable) → t.Row → Bool} {engine : SourceEngine} {s : Store}
  {data data' data'' : SourceData} {st : GuestStatement} {answer : GuestAnswer}

theorem spares_refl (t : SourceTable) (rows : List t.Row) : Spares hidden t rows rows :=
  List.filter_sublist

theorem spares_trans {t : SourceTable} {rows rows' rows'' : List t.Row}
    (h : Spares hidden t rows rows') (h' : Spares hidden t rows' rows'') :
    Spares hidden t rows rows'' := by
  have hfiltered := h.filter (hidden t)
  simp only [List.filter_filter, Bool.and_self] at hfiltered
  exact hfiltered.trans h'

/-- **One statement** spares the rows that its policy does not reach. -/
theorem perform_spares (hplain : st.Plain s (data.map (·.table)))
    (hhidden : ∀ (t : SourceTable) (r : t.Row), hidden t r = true → s.reaches engine.sem r = false)
    (h : st.perform engine s data = .ok (data', answer)) :
    List.Forall₂ (TableRel (Spares hidden)) data data' := by
  cases st with
  | read fragments =>
    obtain ⟨-, -, -, -, rfl, -⟩ := perform_read.1 h
    exact tableRel_refl spares_refl _
  | write target seam built =>
    obtain ⟨count, plans, shaped, yielded, rows, -, hwrites⟩ := perform_write.1 h
    refine change_rel spares_refl (fun x hx hnamed out k happlied => ?_) hwrites.isChanged
    have ht : x.table ∈ data.map (·.table) := List.mem_map_of_mem hx
    have hedited (hverb : target.verb = .update ∨ target.verb = .delete)
        (hedit : editAll (shaped.statement.edit engine target rows) x.rows = .ok (out, k)) :
        Spares hidden x.table x.rows out :=
      filter_sublist_editAll hedit fun r _ hr change hchange =>
        edit_of_not_reached hverb hnamed.1 hnamed.2 (hplain x.table ht hnamed.1 hnamed.2)
          hwrites.isGranted hwrites.isShaped (hhidden x.table r hr) hchange
    rw [CrossingWriteStatement.applied] at happlied
    cases hverb : target.verb with
    | insert =>
      simp only [hverb] at happlied
      obtain ⟨fresh, -, happlied⟩ := bind_eq_ok happlied
      cases happlied
      exact List.filter_sublist.trans (List.sublist_append_left x.rows fresh)
    | update =>
      simp only [hverb] at happlied
      exact hedited (.inl hverb) happlied
    | delete =>
      simp only [hverb] at happlied
      exact hedited (.inr hverb) happlied
    | select | create | alter | drop =>
      simp only [hverb] at happlied
      cases happlied

end

/-- **Rows that no policy reaches are still there.**  In every session of a guest, whatever
policies its statements meet, the committed tables and the tables that the transaction sees hold
every row that none of these policies reaches, as often and in the order that it was there. -/
theorem hidden_untouched {hidden : (t : SourceTable) → t.Row → Bool} {data : SourceData}
    {steps : List GuestStep} {g : GuestSession}
    (hplain : ∀ engine policy st, .statement engine policy st ∈ steps →
      st.Plain policy (data.map (·.table)))
    (hhidden : ∀ engine policy st, .statement engine policy st ∈ steps →
      ∀ (t : SourceTable) (r : t.Row), hidden t r = true → policy.reaches engine.sem r = false)
    (h : guestRuns.Run Machine.Free ⟨data, data, []⟩ steps g) :
    List.Forall₂ (TableRel (Spares hidden)) data g.committed ∧
      List.Forall₂ (TableRel (Spares hidden)) data g.current :=
  run_tables spares_refl (fun _ _ _ _ => spares_trans) (fun engine policy st hst _ _ _ htables =>
    perform_spares (htables ▸ hplain engine policy st hst) (hhidden engine policy st hst)) h

/-! ### Sources that cannot be told apart -/

/-- The visible rows are the same. -/
def SameVisible (visible : (t : SourceTable) → t.Row → Bool) (t : SourceTable)
    (rows rows' : List t.Row) : Prop := rows.filter (visible t) = rows'.filter (visible t)

/-- The outcome of a statement over two sources: alike, unless the source fails in one of them. -/
inductive Alike (visible : (t : SourceTable) → t.Row → Bool) :
    Except Refusal (SourceData × GuestAnswer) → Except Refusal (SourceData × GuestAnswer) → Prop
  | performed {data data' : SourceData} (answer : GuestAnswer)
      (h : List.Forall₂ (TableRel (SameVisible visible)) data data') :
      Alike visible (.ok (data, answer)) (.ok (data', answer))
  | refused (e : BridgeError) : Alike visible (.error (.bridge e)) (.error (.bridge e))
  | failed (e : EvalError) (out : Except Refusal (SourceData × GuestAnswer)) :
      Alike visible (.error (.source e)) out
  | otherFailed (out : Except Refusal (SourceData × GuestAnswer)) (e : EvalError) :
      Alike visible out (.error (.source e))

section

variable {visible : (t : SourceTable) → t.Row → Bool} {engine : SourceEngine} {s : Store}
  {data data' : SourceData}

theorem Alike.byBridge_bind {α : Type} {x : Except BridgeError α}
    {f g : α → Except Refusal (SourceData × GuestAnswer)}
    (h : ∀ a, x = .ok a → Alike visible (f a) (g a)) :
    Alike visible (byBridge x >>= f) (byBridge x >>= g) := by
  cases x with
  | error e => exact .refused e
  | ok a => exact h a rfl

theorem Alike.bySource_bind {α : Type} {x y : Except EvalError α}
    {f g : α → Except Refusal (SourceData × GuestAnswer)}
    (h : ∀ a b, x = .ok a → y = .ok b → Alike visible (f a) (g b)) :
    Alike visible (bySource x >>= f) (bySource y >>= g) := by
  cases x with
  | error e => exact .failed e _
  | ok a =>
    cases y with
    | error e => exact .otherFailed _ e
    | ok b => exact h a b rfl rfl

/-- **A bound floor yields the same** of two sources with the same visible rows. -/
theorem yields_eq (hreach : ∀ (t : SourceTable) (r : t.Row), s.reaches engine.sem r = true →
      visible t r = true)
    (hsame : List.Forall₂ (TableRel (SameVisible visible)) data data') {floor : CrossingFloor}
    {plan : FloorPlan} (hplan : s.bindFloor floor = .ok plan) {y y' : List (List Value)}
    (h : plan.yields engine.sem data = .ok y) (h' : plan.yields engine.sem data' = .ok y') :
    y = y' := by
  rw [FloorPlan.yields] at h h'
  rcases find?_rel plan.floor.schema plan.floor.table hsame with
    ⟨hnone, -⟩ | ⟨t, defaults, rows, rows', hschema, htable, hrows, hfound, hfound'⟩
  · rw [hnone] at h
    cases h
  · rw [hfound] at h
    rw [hfound'] at h'
    obtain ⟨kept, hkept, h⟩ := bind_eq_ok h
    obtain ⟨kept', hkept', h'⟩ := bind_eq_ok h'
    obtain ⟨rfl, hgrant⟩ := rows_of_bindFloor hplan hschema htable hkept
    obtain ⟨rfl, -⟩ := rows_of_bindFloor hplan hschema htable hkept'
    -- what select shows is visible, so it can be looked for among the visible rows
    have hshown : ∀ all : List t.Row, all.filter (s.shows engine.sem .select) =
        (all.filter (visible t)).filter (s.shows engine.sem .select) := by
      intro all
      rw [List.filter_filter]
      refine List.filter_congr fun r _ => ?_
      cases hr : s.shows engine.sem .select r with
      | false => rfl
      | true => rw [hreach t r (reaches_of_shows (.inl rfl) hgrant hr)]; rfl
    rw [hshown, show rows.filter (visible t) = rows'.filter (visible t) from hrows, ← hshown] at h
    rw [h] at h'
    exact Except.ok.inj h'

/-- **A shaped write** over two tables with the same visible rows. -/
theorem applied_alike {t : SourceTable} {target : CrossingWriteTarget}
    {plan : Option (List CrossingFloor)} {built : CrossingWriteStatement} {plans : List FloorPlan}
    {shaped : ShapedWrite} {seam : Option (List (List Value))} {defaults : t.Row}
    {rows rows' out out' : List t.Row} {n n' : Nat}
    (hreach : ∀ r : t.Row, s.reaches engine.sem r = true → visible t r = true)
    (hschema : t.schema = target.schema) (htable : t.name = target.table)
    (hplain : ∀ v p, s.book.usingFor t.schema t.name v = some p →
      PlainPredicate t p ∧ SeamFree built p)
    (hgrant : s.book.grants target.schema target.table target.verb = true)
    (hshaped : (write target plan built).run s = .ok (plans, shaped))
    (hsame : SameVisible visible t rows rows')
    (h : shaped.statement.applied engine target seam ⟨t, defaults, rows⟩ = .ok (out, n))
    (h' : shaped.statement.applied engine target seam ⟨t, defaults, rows'⟩ = .ok (out', n')) :
    SameVisible visible t out out' ∧ n = n' := by
  have hedited (hverb : target.verb = .update ∨ target.verb = .delete)
      (hedit : editAll (shaped.statement.edit engine target seam) rows = .ok (out, n))
      (hedit' : editAll (shaped.statement.edit engine target seam) rows' = .ok (out', n')) :
      SameVisible visible t out out' ∧ n = n' := by
    -- a row that is not visible is not reached, and so never changed
    have hkept : ∀ r : t.Row, visible t r = false → ∀ change,
        shaped.statement.edit engine target seam r = .ok change → change = none := by
      intro r hr change hchange
      refine edit_of_not_reached hverb hschema htable hplain hgrant hshaped ?_ hchange
      by_contra hreached
      rw [hreach r (by simpa using hreached)] at hr
      cases hr
    obtain ⟨seen, hseen, heq⟩ := editAll_filter hedit fun r _ => hkept r
    obtain ⟨seen', hseen', heq'⟩ := editAll_filter hedit' fun r _ => hkept r
    rw [show rows.filter (visible t) = rows'.filter (visible t) from hsame, hseen'] at hseen
    cases hseen
    exact ⟨heq.symm.trans heq', rfl⟩
  rw [CrossingWriteStatement.applied] at h h'
  cases hverb : target.verb with
  | insert =>
    simp only [hverb] at h h'
    obtain ⟨fresh, hfresh, h⟩ := bind_eq_ok h
    obtain ⟨fresh', hfresh', h'⟩ := bind_eq_ok h'
    rw [hfresh] at hfresh'
    cases hfresh'
    cases h
    cases h'
    refine ⟨?_, rfl⟩
    rw [SameVisible, List.filter_append, List.filter_append,
      show rows.filter (visible t) = rows'.filter (visible t) from hsame]
  | update =>
    simp only [hverb] at h h'
    exact hedited (.inl hverb) h h'
  | delete =>
    simp only [hverb] at h h'
    exact hedited (.inr hverb) h h'
  | select | create | alter | drop =>
    simp only [hverb] at h
    cases h

/-- **One statement** over two sources with the same visible rows. -/
theorem perform_alike {st : GuestStatement} (hplain : st.Plain s (data.map (·.table)))
    (hreach : ∀ (t : SourceTable) (r : t.Row), s.reaches engine.sem r = true → visible t r = true)
    (hsame : List.Forall₂ (TableRel (SameVisible visible)) data data') :
    Alike visible (st.perform engine s data) (st.perform engine s data') := by
  have hbound {floors : List CrossingFloor} {plans : List FloorPlan}
      (hplans : floors.mapM s.bindFloor = .ok plans) {ys ys' : List (List (List Value))}
      (h : plans.mapM (·.yields engine.sem data) = .ok ys)
      (h' : plans.mapM (·.yields engine.sem data') = .ok ys') : ys = ys' := by
    refine mapM_unique (fun plan hplan y y' hy hy' => ?_) h h'
    obtain ⟨floor, -, hfloor⟩ := exists_of_mapM hplans hplan
    exact yields_eq hreach hsame hfloor hy hy'
  cases st with
  | read fragments =>
    rw [GuestStatement.perform, GuestStatement.perform]
    refine Alike.byBridge_bind fun plans hplans => Alike.bySource_bind fun ys ys' hys hys' => ?_
    rw [read, Prog.run_readFragments] at hplans
    have heq : ys = ys' := by
      refine mapM_unique (fun bound hmem y y' hy hy' => ?_) hys hys'
      obtain ⟨fragment, -, hfragment⟩ := exists_of_mapM hplans hmem
      exact hbound hfragment hy hy'
    rw [heq]
    exact .performed _ hsame
  | write target seam built =>
    rw [GuestStatement.perform, GuestStatement.perform]
    refine Alike.byBridge_bind fun _ hbind => Alike.byBridge_bind fun out hout => ?_
    obtain ⟨plans, shaped⟩ := out
    refine Alike.bySource_bind fun ys ys' hys hys' => ?_
    rw [hbound (plans_of_run_write hout) hys hys']
    refine Alike.bySource_bind fun rows rows' hrows hrows' => ?_
    rw [hrows] at hrows'
    cases hrows'
    refine Alike.bySource_bind fun done done' hdone hdone' => ?_
    obtain ⟨hout', hcount⟩ := change_lockstep hsame
      (fun t _ _ _ _ _ _ _ ht hschema htable hrel happlied happlied' =>
        applied_alike (hreach t) hschema htable (hplain t ht hschema htable)
          (run_bindWrite.1 hbind) hout hrel happlied happlied') hdone hdone'
    dsimp only
    rw [hcount]
    exact .performed _ hout'

end

/-- The source does not fail to evaluate a statement. -/
def Evaluated (g : GuestSession) : GuestStep → Prop
  | .statement engine policy st => ∀ e, st.perform engine policy g.current ≠ .error (.source e)
  | .commit | .rollback => True

/-- The same step on two sources: their subqueries may see different data. -/
inductive SameStep : GuestStep → GuestStep → Prop
  | statement {engine engine' : SourceEngine} (hengine : engine.SameFunctions engine')
      (policy : Store) (st : GuestStatement) :
    SameStep (.statement engine policy st) (.statement engine' policy st)
  | commit : SameStep .commit .commit
  | rollback : SameStep .rollback .rollback

/-- Without subqueries, the engine of either source may perform the step. -/
theorem SameStep.next_eq {l l' : GuestStep} (hl : SameStep l l')
    (hfree : ∀ engine policy st, l = .statement engine policy st → st.SubqueryFree policy)
    (g : GuestSession) :
    guestRuns.next g l' = guestRuns.next g l ∧ (Evaluated g l' → Evaluated g l) := by
  cases hl with
  | statement hengine policy st =>
    have hsame := perform_congr hengine (hfree _ policy st rfl) g.current
    exact ⟨by simp only [guestRuns, hsame], by simp only [Evaluated, hsame, imp_self]⟩
  | commit => exact ⟨rfl, id⟩
  | rollback => exact ⟨rfl, id⟩

/-- **Rows that no policy reaches cannot be read.**  Two sources with the same visible rows, where
every row that a policy of the session reaches is visible, and statements and policies without
subqueries: as long as the source evaluates every statement, the same statements are told the same,
and the visible rows stay the same. -/
theorem hidden_unread {visible : (t : SourceTable) → t.Row → Bool} {data data' : SourceData}
    {steps steps' : List GuestStep} {g g' : GuestSession}
    (hsteps : List.Forall₂ SameStep steps steps')
    (hfree : ∀ engine policy st, .statement engine policy st ∈ steps → st.SubqueryFree policy)
    (hplain : ∀ engine policy st, .statement engine policy st ∈ steps →
      st.Plain policy (data.map (·.table)))
    (hreach : ∀ engine policy st, .statement engine policy st ∈ steps →
      ∀ (t : SourceTable) (r : t.Row), policy.reaches engine.sem r = true → visible t r = true)
    (hsame : List.Forall₂ (TableRel (SameVisible visible)) data data')
    (h : guestRuns.Run Evaluated ⟨data, data, []⟩ steps g)
    (h' : guestRuns.Run Evaluated ⟨data', data', []⟩ steps' g') :
    g.answers = g'.answers ∧
      List.Forall₂ (TableRel (SameVisible visible)) g.committed g'.committed ∧
      List.Forall₂ (TableRel (SameVisible visible)) g.current g'.current := by
  -- the second engine may differ in its subqueries only, which no statement has
  have hfirst : guestRuns.Run Evaluated ⟨data', data', []⟩ steps g' := by
    have hall : ∀ l ∈ steps, ∀ engine policy st, l = .statement engine policy st →
        st.SubqueryFree policy := fun l hl engine policy st hst => hfree engine policy st (hst ▸ hl)
    exact h'.congr_labels (((List.forall₂_and_left _ _).2 ⟨hall, hsteps⟩).imp fun _ _ hl =>
      hl.2.next_eq hl.1)
  suffices hall : (g.answers = g'.answers ∧
      List.Forall₂ (TableRel (SameVisible visible)) g.committed g'.committed ∧
      List.Forall₂ (TableRel (SameVisible visible)) g.current g'.current) ∧
        g.committed.map (·.table) = data.map (·.table) ∧
        g.current.map (·.table) = data.map (·.table) from hall.1
  refine h.lockstep (R := fun g g' => (g.answers = g'.answers ∧
    List.Forall₂ (TableRel (SameVisible visible)) g.committed g'.committed ∧
    List.Forall₂ (TableRel (SameVisible visible)) g.current g'.current) ∧
      g.committed.map (·.table) = data.map (·.table) ∧
      g.current.map (·.table) = data.map (·.table)) hfirst ⟨⟨rfl, hsame, hsame⟩, rfl, rfl⟩ ?_
  rintro g g' (⟨engine, policy, st⟩ | _ | _) u u' hl ⟨⟨hanswers, hcommitted, hcurrent⟩, ht, ht'⟩
    hc hc' hu hu'
  · have halike := perform_alike (ht' ▸ hplain _ _ _ hl) (hreach _ _ _ hl) hcurrent
    simp only [guestRuns] at hu hu'
    simp only [Evaluated] at hc hc'
    have htables : ∀ now answer, st.perform engine policy g.current = .ok (now, answer) →
        now.map (·.table) = data.map (·.table) := fun _ _ hdone =>
      (perform_tables hdone).trans ht'
    generalize st.perform engine policy g.current = out at hu hc halike htables
    generalize st.perform engine policy g'.current = out' at hu' hc' halike
    cases halike with
    | performed answer hdata =>
      cases hu
      cases hu'
      exact ⟨⟨congrArg (· ++ _) hanswers, hcommitted, hdata⟩, ht, htables _ _ rfl⟩
    -- a refusal rolls back both
    | refused e =>
      cases hu
      cases hu'
      exact ⟨⟨congrArg (· ++ _) hanswers, hcommitted, hcommitted⟩, ht, ht⟩
    -- a statement that the source cannot evaluate is no step of such a run
    | failed e => exact absurd rfl (hc e)
    | otherFailed _ e => exact absurd rfl (hc' e)
  · cases hu
    cases hu'
    exact ⟨⟨hanswers, hcurrent, hcurrent⟩, ht', ht'⟩
  · cases hu
    cases hu'
    exact ⟨⟨hanswers, hcommitted, hcommitted⟩, ht, ht⟩

namespace Sample

/-- A source that takes the first of several joins. -/
def engine : SourceEngine := ⟨semantics, fun scope _ => scope, fun _ _ => List.mem_cons_self⟩

/-- The table of the examples, with these rows. -/
def ordersData (rows : List ordersTable.Row) : SourceData := [⟨ordersTable, row 0, rows⟩]

/-- `UPDATE orders SET amount = 7`, a read of the table, and a commit. -/
def ordersSteps : List GuestStep :=
  [.statement engine ownStore (.write target (.constant [[.integer 7]]) built),
    .statement engine ownStore (.read [[floor]]), .commit]

theorem plain_ordersSteps {rows : List ordersTable.Row} (e : SourceEngine) (policy : Store)
    (st : GuestStatement) (h : .statement e policy st ∈ ordersSteps) :
    st.Plain policy ((ordersData rows).map (·.table)) := by
  simp only [ordersSteps, List.mem_cons, GuestStep.statement.injEq, reduceCtorEq, List.not_mem_nil,
    or_false] at h
  rcases h with ⟨-, rfl, rfl⟩ | ⟨-, -, rfl⟩
  · intro t ht _ _ v p hp
    obtain rfl : t = ordersTable := List.mem_singleton.1 ht
    have hp' : (if v = .select ∨ v = .update then some ownRows else none) = some p := hp
    split_ifs at hp'
    exact Option.some.inj hp' ▸ ⟨.of_bareOver rfl bareOver_ownRows.1, bareOver_ownRows.2⟩
  · trivial

theorem policy_ordersSteps {e : SourceEngine} {policy : Store} {st : GuestStatement}
    (h : .statement e policy st ∈ ordersSteps) : e = engine ∧ policy = ownStore := by
  simp only [ordersSteps, List.mem_cons, GuestStep.statement.injEq, reduceCtorEq, List.not_mem_nil,
    or_false] at h
  tauto

end Sample

/-- An update of the orders of tenant 1 leaves those of tenant 2. -/
theorem hidden_untouched_orders : ∃ g : GuestSession,
    guestRuns.exec ⟨Sample.ordersData [Sample.row 1, Sample.row 2],
      Sample.ordersData [Sample.row 1, Sample.row 2], []⟩ Sample.ordersSteps = some g ∧
    List.Forall₂ (TableRel (Spares fun _ r => !Sample.ownStore.reaches Sample.semantics r))
      (Sample.ordersData [Sample.row 1, Sample.row 2]) g.committed := by
  obtain ⟨g, hg⟩ : ∃ g, guestRuns.exec ⟨Sample.ordersData [Sample.row 1, Sample.row 2],
    Sample.ordersData [Sample.row 1, Sample.row 2], []⟩ Sample.ordersSteps = some g := ⟨_, rfl⟩
  refine ⟨g, hg, (hidden_untouched Sample.plain_ordersSteps (fun e policy st hst t r hr => ?_)
    (Machine.run_of_exec hg)).1⟩
  obtain ⟨rfl, rfl⟩ := Sample.policy_ordersSteps hst
  simpa [Sample.engine] using hr

namespace Sample

theorem evaluated_of_toBool {e : SourceEngine} {policy : Store} {st : GuestStatement}
    {g : GuestSession} (h : (st.perform e policy g.current).toBool = true) :
    Evaluated g (.statement e policy st) := by
  intro error herror
  rw [herror] at h
  cases h

end Sample

namespace Sample

/-- Subqueries of the second source find something else. -/
def otherEngine : SourceEngine :=
  { engine with sem := { semantics with subquery := fun _ _ _ => .ok (.integer 1) } }

/-- The same statements on the second source. -/
def otherSteps : List GuestStep :=
  [.statement otherEngine ownStore (.write target (.constant [[.integer 7]]) built),
    .statement otherEngine ownStore (.read [[floor]]), .commit]

theorem same_otherSteps : List.Forall₂ SameStep ordersSteps otherSteps :=
  have hengine : engine.SameFunctions otherEngine := ⟨rfl, rfl⟩
  .cons (.statement hengine _ _) (.cons (.statement hengine _ _) (.cons .commit .nil))

theorem subqueryFree_ownStore : ownStore.SubqueryFree := by
  intro l p hp
  have hgrant : ∀ g, ownStore.book.tables.findGrant l.schema l.table = some g →
      g = grantOver ownRows := by
    intro g hg
    have hset : (tables (grantOver ownRows)).grantAt (tableKey l.schema l.table) = some g := hg
    rw [tables, GrantTables.grantAt_set] at hset
    split_ifs at hset
    · exact (Option.some.inj hset).symm
    · cases hset
  have hown : p = ownRows := by
    rw [GrantBook.lookup] at hp
    split_ifs at hp
    all_goals
      obtain ⟨g, hg, hcopy⟩ := Option.bind_eq_some_iff.1 hp
      obtain rfl := hgrant g hg
      simp only [SourceGrant.copyCheck, SourceGrant.copyUsing, grantOver] at hcopy
      split_ifs at hcopy
      exact (Option.some.inj hcopy).symm
  rw [hown]
  rfl

theorem subqueryFree_ordersSteps (e : SourceEngine) (policy : Store) (st : GuestStatement)
    (h : .statement e policy st ∈ ordersSteps) : st.SubqueryFree policy := by
  simp only [ordersSteps, List.mem_cons, GuestStep.statement.injEq, reduceCtorEq, List.not_mem_nil,
    or_false] at h
  rcases h with ⟨-, rfl, rfl⟩ | ⟨-, rfl, rfl⟩
  · refine ⟨subqueryFree_ownStore, fun e he => ?_, nofun⟩
    rw [List.mem_singleton.1 he]
    rfl
  · exact subqueryFree_ownStore

end Sample

/-- Whose order the other one is makes no difference, whatever the subqueries find. -/
theorem hidden_unread_orders : ∃ g g' : GuestSession,
    guestRuns.Run Evaluated ⟨Sample.ordersData [Sample.row 1, Sample.row 2],
      Sample.ordersData [Sample.row 1, Sample.row 2], []⟩ Sample.ordersSteps g ∧
    guestRuns.Run Evaluated ⟨Sample.ordersData [Sample.row 1, Sample.row 3],
      Sample.ordersData [Sample.row 1, Sample.row 3], []⟩ Sample.otherSteps g' ∧
    g.answers = g'.answers := by
  obtain ⟨g, hg⟩ : ∃ g, guestRuns.Run Evaluated ⟨Sample.ordersData [Sample.row 1, Sample.row 2],
      Sample.ordersData [Sample.row 1, Sample.row 2], []⟩ Sample.ordersSteps g :=
    ⟨_, .cons (Sample.evaluated_of_toBool rfl) rfl
      (.cons (Sample.evaluated_of_toBool rfl) rfl (.cons trivial rfl (.nil _)))⟩
  obtain ⟨g', hg'⟩ : ∃ g', guestRuns.Run Evaluated
      ⟨Sample.ordersData [Sample.row 1, Sample.row 3],
        Sample.ordersData [Sample.row 1, Sample.row 3], []⟩ Sample.otherSteps g' :=
    ⟨_, .cons (Sample.evaluated_of_toBool rfl) rfl
      (.cons (Sample.evaluated_of_toBool rfl) rfl (.cons trivial rfl (.nil _)))⟩
  have hsame : SameVisible (fun _ r => Sample.ownStore.reaches Sample.semantics r)
      Sample.ordersTable [Sample.row 1, Sample.row 2] [Sample.row 1, Sample.row 3] := rfl
  refine ⟨g, g', hg, hg', (hidden_unread Sample.same_otherSteps
    Sample.subqueryFree_ordersSteps Sample.plain_ordersSteps (fun e policy st hst t r hr => ?_)
    (.cons ⟨hsame⟩ .nil) hg hg').1⟩
  obtain ⟨rfl, rfl⟩ := Sample.policy_ordersSteps hst
  exact hr

end VirtualCatalog
