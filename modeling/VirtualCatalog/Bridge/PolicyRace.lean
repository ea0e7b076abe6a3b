import VirtualCatalog.Bridge.Statement

/-!
# Statements against policy changes

The permission, the USING predicate and the CHECK predicate of a statement come from separate lock
sections, and a lookup finds nothing both without a grant and under an unrestricted one.  A commit
between two sections can therefore show a statement a mixture of two policies, or none.

* `FloorHonest`, `WriteHonest` : the statement is refused, or its predicates are those of one
  installed grant set that grants its verb.
* `resolveFloor_honest` : a floor is honest if select is still granted when its predicate is looked
  up.
* `boundWrite_honest` : a write is honest if its verb is still granted when its USING predicate is
  looked up and no later commit changes the predicates it still looks up.
-/

namespace VirtualCatalog

open Prog

/-- One label of the owner. -/
def OwnerStep (bridgeId : String) (s s' : Store) : Prop := ∃ l, s.next bridgeId l = some s'

/-- The live grant set is on record. -/
def Recorded (s : Store) : Prop := s.book.tables ∈ s.installed

/-- An installed grant set grants the verb on the table, in the grant `g`. -/
def GrantedBy (installed : List GrantTables) (schema table : String) (verb : CrossingVerb)
    (g : SourceGrant) : Prop :=
  verb ∈ g.verbs ∧ ∃ T ∈ installed, T.findGrant schema table = some g

theorem grants_iff {book : GrantBook} {schema table : String} {verb : CrossingVerb} :
    book.grants schema table verb = true ↔
      ∃ g, book.tables.findGrant schema table = some g ∧ verb ∈ g.verbs := by
  rw [GrantBook.grants, Option.any_eq_true]
  simp

/-- A label leaves the grants as they are, or installs a grant set and records it. -/
theorem OwnerStep.book_cases {bridgeId : String} {s s' : Store} (h : OwnerStep bridgeId s s') :
    (s'.book.tables = s.book.tables ∧ s'.installed = s.installed) ∨
      ∃ commit, commitPolicy bridgeId s.book commit = .ok s'.book ∧
        s'.installed = s'.book.tables :: s.installed := by
  obtain ⟨l, h⟩ := h
  cases Store.next_effect h with
  | quiet hbook hi => exact .inl ⟨by rw [hbook], hi⟩
  | policy commit hbook hi => exact .inr ⟨commit, hbook, hi⟩
  | context hbook hi => exact .inl ⟨by rw [hbook], hi⟩

theorem OwnerStep.recorded {bridgeId : String} {s s' : Store} (h : OwnerStep bridgeId s s')
    (hr : Recorded s) : Recorded s' := by
  rcases h.book_cases with ⟨hb, hi⟩ | ⟨_, -, hi⟩
  · rwa [Recorded, hb, hi]
  · rw [Recorded, hi]
    exact List.mem_cons_self

theorem OwnerStep.installed_mono {bridgeId : String} {s s' : Store} {T : GrantTables}
    (h : OwnerStep bridgeId s s') (hT : T ∈ s.installed) : T ∈ s'.installed := by
  rcases h.book_cases with ⟨-, hi⟩ | ⟨_, -, hi⟩
  · rwa [hi]
  · rw [hi]
    exact List.mem_cons_of_mem _ hT

/-! ### Reads -/

/-- The floor is refused, or filtered by the select predicate of one installed grant. -/
def FloorHonest (floor : CrossingFloor) (installed : List GrantTables)
    (r : Except BridgeError FloorPlan) : Prop :=
  (∃ e, r = .error e) ∨
    ∃ g, GrantedBy installed floor.schema floor.table .select g ∧
      ∃ plan, r = .ok plan ∧ plan.restriction.map (·.predicate) = g.copyUsing .select

/-- Any commits, but when the predicate is looked up select is granted, or it once was without a
predicate and now there is none. -/
def floorRely (bridgeId : String) (floor : CrossingFloor) : Rely Moment Store where
  env _ := OwnerStep bridgeId
  pre m s := ∀ l, m.phase = .lookup l →
    s.book.grants floor.schema floor.table .select = true ∨
      (s.book.lookup floor.lookup = none ∧
        ∃ g, GrantedBy s.installed floor.schema floor.table .select g ∧ g.copyUsing .select = none)

/-- **A floor is refused or filtered by one policy version that grants select.** -/
theorem resolveFloor_honest {bridgeId : String} {s s' : Store} {earlier : List Lookup}
    {after : List (ContextValues × Lookup)} {values : ContextValues} {floor : CrossingFloor}
    {r : Except BridgeError FloorPlan}
    (h : Exec (floorRely bridgeId floor) s (resolveFloor earlier after values floor) s' r)
    (hr : Recorded s) : FloorHonest floor s'.installed r := by
  obtain ⟨s₁, he₁, -, h⟩ := exec_sect_iff.1 h
  have hr₁ : Recorded s₁ := keep_of_steps he₁ (fun _ _ => OwnerStep.recorded) hr
  split_ifs at h
  · obtain ⟨s₂, he₂, hpre, h⟩ := exec_sect_iff.1 h
    have hr₂ : Recorded s₂ := keep_of_steps he₂ (fun _ _ => OwnerStep.recorded) hr₁
    rcases exec_bind_iff.1 h with ⟨e, rfl, -⟩ | ⟨restriction, s₃, hf, h₃⟩
    · exact .inl ⟨e, rfl⟩
    · obtain ⟨rfl, hf⟩ := exec_ofExcept_iff.1 hf
      obtain ⟨rfl, rfl⟩ := exec_ret_iff.1 h₃
      refine .inr ?_
      rcases hpre _ rfl with hg | ⟨hnone, g, hg, hu⟩
      · obtain ⟨g, hfind, hv⟩ := grants_iff.1 hg
        refine ⟨g, ⟨hv, _, hr₂, hfind⟩, _, rfl, ?_⟩
        rw [fillOption_ok hf.symm]
        simp [GrantBook.lookup, CrossingFloor.lookup, GrantBook.usingFor, hfind]
      · exact ⟨g, hg, _, rfl, by rw [fillOption_ok hf.symm, hnone, hu]⟩
  · obtain ⟨rfl, rfl⟩ := exec_throw_iff.1 h
    exact .inl ⟨_, rfl⟩

/-- The owner revokes select while a guest reads. -/
def revokedRead : Store :=
  Sample.store (Sample.grantOver Sample.ownRows) ∅ [.policy (.verb Sample.orders .select {} {})]

/-- A commit between the permission and the predicate shows the guest every row. -/
theorem resolveFloor_not_honest :
    ¬ ∀ (bridgeId : String) (s s' : Store) (values : ContextValues) (floor : CrossingFloor)
      (r : Except BridgeError FloorPlan),
      Exec (.any (OwnerStep bridgeId)) s (resolveFloor [] [] values floor) s' r → Recorded s →
        FloorHonest floor s'.installed r := by
  intro h
  have step : OwnerStep "b" revokedRead ((revokedRead.next "b" (.finish 0)).getD revokedRead) :=
    ⟨.finish 0, rfl⟩
  have run : Exec (.any (OwnerStep "b")) revokedRead (resolveFloor [] [] ∅ Sample.floor)
      ((revokedRead.next "b" (.finish 0)).getD revokedRead) (.ok ⟨Sample.floor, none⟩) :=
    .sect .refl trivial (.sect (.single step) trivial (.ret _ _))
  have filtered : ∀ T ∈ ((revokedRead.next "b" (.finish 0)).getD revokedRead).installed,
      (T.findGrant "main" "orders").any
        (fun g => g.has .select && (g.copyUsing .select).isNone) = false := by decide
  rcases h _ _ _ _ _ _ run List.mem_cons_self with ⟨e, he⟩ | ⟨g, ⟨hv, T, hT, hg⟩, plan, hp, hu⟩
  · cases he
  · cases hp
    have hT := filtered T hT
    rw [show T.findGrant "main" "orders" = some g from hg] at hT
    simp [SourceGrant.has_iff.2 hv, ← hu] at hT

/-- The owner moves the guest to the rows of tenant 2 while it reads. -/
def movedRead : Store :=
  Sample.store (Sample.grantOver Sample.ownRows) ∅
    [.policy (.verb Sample.orders .select
      ⟨true, some (Sample.tenantIs (.constant (.integer 2))), none, false⟩ {})]

/-- A commit between the permission and the predicate shows the guest the rows of the new policy. -/
theorem resolveFloor_honest_committed :
    FloorHonest Sample.floor ((movedRead.next "b" (.finish 0)).getD movedRead).installed
      (.ok ⟨Sample.floor, some ⟨Sample.tenantIs (.constant (.integer 2)),
        Sample.tenantIs (.constant (.integer 2))⟩⟩) :=
  have step : OwnerStep "b" movedRead ((movedRead.next "b" (.finish 0)).getD movedRead) :=
    ⟨.finish 0, rfl⟩
  have run : Exec (floorRely "b" Sample.floor) movedRead (resolveFloor [] [] ∅ Sample.floor)
      ((movedRead.next "b" (.finish 0)).getD movedRead) _ :=
    .sect .refl (fun _ hl => by cases hl) (.sect (.single step)
      (fun _ _ => .inl (by decide)) (.ret _ _))
  resolveFloor_honest run List.mem_cons_self

/-! ### Writes -/

/-- The predicates of the write are those of the grant. -/
def ShapedWrite.From (shaped : ShapedWrite) (target : CrossingWriteTarget) (g : SourceGrant) : Prop :=
  shaped.usingPredicate = g.copyUsing target.verb ∧ shaped.check = g.copyCheck target.verb ∧
    (target.readsItsRows = true → shaped.visible = g.copyUsing .select)

/-- The shape is refused, or made of the predicates of one installed grant of its verb. -/
def ShapeHonest (target : CrossingWriteTarget) (installed : List GrantTables)
    (r : Except BridgeError ShapedWrite) : Prop :=
  ∀ shaped, r = .ok shaped →
    ∃ g, GrantedBy installed target.schema target.table target.verb g ∧ shaped.From target g

/-- The write is refused, or runs under the predicates of one installed grant of its verb. -/
def WriteHonest (target : CrossingWriteTarget) (installed : List GrantTables)
    (r : Except BridgeError (List FloorPlan × ShapedWrite)) : Prop :=
  ∀ plans shaped, r = .ok (plans, shaped) →
    ∃ g, GrantedBy installed target.schema target.table target.verb g ∧ shaped.From target g

/-- The write of a statement, from its bind. -/
def boundWrite (target : CrossingWriteTarget) (plan : Option (List CrossingFloor))
    (built : CrossingWriteStatement) : Stmt (List FloorPlan × ShapedWrite) :=
  (bindWrite target).bind fun _ => write target plan built

/-- Any commits, but the verb is granted when its USING predicate is looked up, and from then on
no commit changes a predicate that the write still looks up. -/
def writeRely (bridgeId : String) (target : CrossingWriteTarget) : Rely Moment Store where
  env m s s' := OwnerStep bridgeId s s' ∧
    ((∀ c ∈ m.coming, c.2 ≠ target.usingLookup) →
      ∀ c ∈ m.coming, s'.book.lookup c.2 = s.book.lookup c.2)
  pre m s := m.phase = .lookup target.usingLookup →
    s.book.grants target.schema target.table target.verb = true

section

variable {bridgeId : String} {target : CrossingWriteTarget} {s s' : Store}
  {plan : Option (List CrossingFloor)} {built : CrossingWriteStatement} {values : ContextValues}

theorem finishShape_from {u c v : Option Expr} {shaped : ShapedWrite} {g : SourceGrant}
    (h : finishShape target values built u c v = .ok shaped) (hu : u = g.copyUsing target.verb)
    (hc : c = g.copyCheck target.verb)
    (hv : target.readsItsRows = true → v = g.copyUsing .select) : shaped.From target g := by
  obtain ⟨_, -, h⟩ := bind_eq_ok h
  obtain ⟨_, -, h⟩ := bind_eq_ok h
  cases h
  exact ⟨hu, hc, hv⟩

theorem recorded_of_steps {m : Moment} (hr : Recorded s)
    (h : Relation.ReflTransGen ((writeRely bridgeId target).env m) s s') :
    Recorded s' ∧ ∀ T ∈ s.installed, T ∈ s'.installed :=
  ⟨keep_of_steps h (fun _ _ hs => hs.1.recorded) hr,
    fun _ => keep_of_steps h fun _ _ hs => hs.1.installed_mono⟩

/-- Waiting after the USING lookup keeps the predicates still to come. -/
theorem lookup_of_steps {m : Moment}
    (h : Relation.ReflTransGen ((writeRely bridgeId target).env m) s s')
    (hm : ∀ c ∈ m.coming, c.2 ≠ target.usingLookup) (c : ContextValues × Lookup)
    (hc : c ∈ m.coming) : s'.book.lookup c.2 = s.book.lookup c.2 :=
  keep_of_steps (I := fun x => x.book.lookup c.2 = s.book.lookup c.2) h
    (fun _ _ hs hx => (hs.2 hm c hc).trans hx) rfl

/-- The shaper uses the grant it finds at its first lookup. -/
theorem shape_honest {r : Except BridgeError ShapedWrite} (hv : target.verb ≠ .select)
    (h : Exec (writeRely bridgeId target) s (shape target values built) s' r) (hr : Recorded s) :
    ShapeHonest target s'.installed r := by
  obtain ⟨s₁, he₁, hp₁, h⟩ := exec_sect_iff.1 h
  obtain ⟨s₂, he₂, -, h⟩ := exec_sect_iff.1 h
  obtain ⟨hr₁, -⟩ := recorded_of_steps hr he₁
  obtain ⟨hr₂, hm₂⟩ := recorded_of_steps hr₁ he₂
  obtain ⟨g, hfind, hg⟩ := grants_iff.1 (hp₁ rfl)
  have hu : s₁.book.lookup target.usingLookup = g.copyUsing target.verb := by
    simp [GrantBook.lookup, CrossingWriteTarget.usingLookup, GrantBook.usingFor, hfind]
  have hc : s₁.book.lookup target.checkLookup = g.copyCheck target.verb := by
    simp [GrantBook.lookup, CrossingWriteTarget.checkLookup, GrantBook.checkFor, hfind]
  have hvis : s₁.book.lookup target.visibleLookup = g.copyUsing .select := by
    simp [GrantBook.lookup, CrossingWriteTarget.visibleLookup, GrantBook.usingFor, hfind]
  -- neither later lookup is the USING lookup of the verb
  have hcne : target.checkLookup ≠ target.usingLookup := by
    simp [CrossingWriteTarget.checkLookup, CrossingWriteTarget.usingLookup]
  have hvne : target.visibleLookup ≠ target.usingLookup := by
    simp [CrossingWriteTarget.visibleLookup, CrossingWriteTarget.usingLookup, Ne.symm hv]
  split_ifs at h with hreads
  · obtain ⟨s₃, he₃, -, h⟩ := exec_sect_iff.1 h
    obtain ⟨-, hm₃⟩ := recorded_of_steps hr₂ he₃
    obtain ⟨rfl, rfl⟩ := exec_ofExcept_iff.1 h
    have hlater₂ : ∀ c ∈ [(values, target.checkLookup), (values, target.visibleLookup)],
        c.2 ≠ target.usingLookup := by simp [hcne, hvne]
    have hlater₃ : ∀ c ∈ [(values, target.visibleLookup)], c.2 ≠ target.usingLookup := by
      simp [hvne]
    rw [if_pos hreads] at he₂
    have hc₂ := lookup_of_steps he₂ hlater₂ (values, target.checkLookup) (by simp)
    have hv₂ := lookup_of_steps he₂ hlater₂ (values, target.visibleLookup) (by simp)
    have hv₃ := lookup_of_steps he₃ hlater₃ (values, target.visibleLookup) (by simp)
    intro shaped hs
    exact ⟨g, ⟨hg, _, hm₃ _ (hm₂ _ hr₁), hfind⟩, finishShape_from hs hu (hc₂.trans hc)
      fun _ => hv₃.trans (hv₂.trans hvis)⟩
  · obtain ⟨rfl, rfl⟩ := exec_ofExcept_iff.1 h
    have hlater₂ : ∀ c ∈ [(values, target.checkLookup)], c.2 ≠ target.usingLookup := by
      simp [hcne]
    rw [if_neg hreads] at he₂
    have hc₂ := lookup_of_steps he₂ hlater₂ (values, target.checkLookup) (by simp)
    intro shaped hs
    exact ⟨g, ⟨hg, _, hm₂ _ hr₁, hfind⟩, finishShape_from hs hu (hc₂.trans hc)
      fun h => absurd h hreads⟩

/-- **A write is refused or runs under one policy version that grants its verb.** -/
theorem boundWrite_honest {r : Except BridgeError (List FloorPlan × ShapedWrite)}
    (hv : target.verb ≠ .select)
    (h : Exec (writeRely bridgeId target) s (boundWrite target plan built) s' r)
    (hr : Recorded s) : WriteHonest target s'.installed r := by
  have keep : ∀ {α : Type} {p : Stmt α} {s s' : Store} {r : Except BridgeError α},
      Exec (writeRely bridgeId target) s p s' r → Recorded s → Recorded s' :=
    fun h hr => h.invariant hr fun _ _ _ hs => hs.1.recorded
  rintro plans shaped rfl
  -- past the bind and the snapshot, the write ends in the shaper
  have shaped_end : ∀ {s₁ : Store} {values : ContextValues} {plans' : List FloorPlan},
      Recorded s₁ → Exec (writeRely bridgeId target) s₁
        ((shape target values built).bind fun shaped => .ret (plans', shaped)) s'
          (.ok (plans, shaped)) →
      ∃ g, GrantedBy s'.installed target.schema target.table target.verb g ∧
        shaped.From target g := by
    intro s₁ values plans' hr₁ h
    rcases exec_bind_iff.1 h with ⟨e, he, -⟩ | ⟨shaped', s₂, hs, h₂⟩
    · cases he
    · obtain ⟨rfl, he⟩ := exec_ret_iff.1 h₂
      cases he
      exact shape_honest hv hs hr₁ _ rfl
  rcases exec_bind_iff.1 h with ⟨e, he, -⟩ | ⟨_, s₁, hb, h₁⟩
  · cases he
  rcases exec_bind_iff.1 h₁ with ⟨e, he, -⟩ | ⟨values, s₂, hp, h₂⟩
  · cases he
  have hr₂ : Recorded s₂ := keep hp (keep hb hr)
  cases plan with
  | none => exact shaped_end hr₂ h₂
  | some floors =>
    obtain ⟨s₃, he₃, -, h₃⟩ := exec_sect_iff.1 h₂
    rcases exec_bind_iff.1 h₃ with ⟨e, he, -⟩ | ⟨plans', s₄, hf, h₄⟩
    · cases he
    · exact shaped_end (keep hf (recorded_of_steps hr₂ he₃).1) h₄

end

/-- The owner revokes update while a guest writes. -/
def revokedWrite : Store :=
  Sample.store (Sample.grantOver Sample.ownRows) ∅ [.policy (.verb Sample.orders .update {} {})]

/-- A commit between the bind and the predicates leaves a write without any. -/
theorem boundWrite_not_honest :
    ¬ ∀ (bridgeId : String) (s s' : Store) (target : CrossingWriteTarget)
      (plan : Option (List CrossingFloor)) (built : CrossingWriteStatement)
      (r : Except BridgeError (List FloorPlan × ShapedWrite)),
      target.verb ≠ .select → Exec (.any (OwnerStep bridgeId)) s (boundWrite target plan built) s' r →
        Recorded s → WriteHonest target s'.installed r := by
  intro h
  have step : OwnerStep "b" revokedWrite ((revokedWrite.next "b" (.finish 0)).getD revokedWrite) :=
    ⟨.finish 0, rfl⟩
  have run : Exec (.any (OwnerStep "b")) revokedWrite (boundWrite Sample.target none Sample.built)
      ((revokedWrite.next "b" (.finish 0)).getD revokedWrite)
        (.ok ([], ⟨none, none, none, [], Sample.built⟩)) :=
    .sect .refl trivial (.sect .refl trivial (.sect (.single step) trivial
      (.sect .refl trivial (.ret _ _))))
  have checked : ∀ T ∈ ((revokedWrite.next "b" (.finish 0)).getD revokedWrite).installed,
      (T.findGrant "main" "orders").any
        (fun g => g.has .update && (g.copyUsing .update).isNone) = false := by decide
  obtain ⟨g, ⟨hv, T, hT, hg⟩, hu, -⟩ :=
    h _ _ _ _ _ _ _ (by decide) run List.mem_cons_self _ _ rfl
  have hT := checked T hT
  rw [show T.findGrant "main" "orders" = some g from hg] at hT
  have hv : .update ∈ g.verbs := hv
  have hu : none = g.copyUsing .update := hu
  simp [SourceGrant.has_iff.2 hv, ← hu] at hT

/-- Select is revoked between the two predicates of an update, which keeps them both. -/
theorem boundWrite_honest_committed :
    ∃ shaped : ShapedWrite, shaped.check = some Sample.ownRows ∧
      WriteHonest Sample.target ((revokedRead.next "b" (.finish 0)).getD revokedRead).installed
        (.ok ([], shaped)) := by
  have step : OwnerStep "b" revokedRead ((revokedRead.next "b" (.finish 0)).getD revokedRead) :=
    ⟨.finish 0, rfl⟩
  have kept : ((revokedRead.next "b" (.finish 0)).getD revokedRead).book.lookup
      Sample.target.checkLookup = revokedRead.book.lookup Sample.target.checkLookup := rfl
  have run : Exec (writeRely "b" Sample.target) revokedRead
      (boundWrite Sample.target none Sample.built)
      ((revokedRead.next "b" (.finish 0)).getD revokedRead) (.ok ([], _)) :=
    .sect .refl (fun hl => by cases hl) (.sect .refl (fun hl => by cases hl)
      (.sect .refl (fun _ => by decide) (.sect (.single ⟨step, fun _ c hc => by
        rw [List.mem_singleton.1 hc]
        exact kept⟩) (fun hl => by cases hl) (.ret _ _))))
  exact ⟨_, rfl, boundWrite_honest (by decide) run List.mem_cons_self⟩

end VirtualCatalog
