import VirtualCatalog.Bridge.PolicyRace

/-!
# Statements against context changes

A statement takes a snapshot of the context in several places and looks its predicates up in the
live grant book after each.  A context change between them can show one statement two contexts.

* `FilledIn` : the predicates are filled with the values of one context.
* `DataStatement.one_context` : they are, if no context change after a snapshot and before a later
  one touches a name that the earlier snapshot still fills.
-/

namespace VirtualCatalog

open Prog

/-- The predicates are filled with the values of `values`. -/
def FilledIn (values : ContextValues) (fs : List Filled) : Prop :=
  ∀ f ∈ fs, fillContext values f.predicate = .ok f.filled

theorem filledIn_append {values : ContextValues} {fs fs' : List Filled} :
    FilledIn values (fs ++ fs') ↔ FilledIn values fs ∧ FilledIn values fs' :=
  List.forall_mem_append

theorem fillOption_filledIn {values : ContextValues} {p : Option Expr} {f : Option Filled}
    (h : fillOption values p = .ok f) : FilledIn values f.toList := by
  cases p with
  | none => cases h; intro f hf; cases hf
  | some e =>
    rw [fillOption] at h
    cases hf : fillContext values e with
    | error x => rw [hf] at h; cases h
    | ok e' =>
      rw [hf] at h
      cases h
      intro f hm
      cases List.mem_singleton.1 hm
      exact hf

/-- Between the two stores the grants are the same, and the predicates that the lookups find read
the same values. -/
def Agree (ls : List Lookup) (s s' : Store) : Prop :=
  s'.book.tables = s.book.tables ∧ ∀ l ∈ ls, ∀ p, s.book.lookup l = some p →
    ∀ n ∈ parameterNames p, s'.context.values.find? n = s.context.values.find? n

theorem Agree.refl (ls : List Lookup) (s : Store) : Agree ls s s := ⟨rfl, fun _ _ _ _ _ _ => rfl⟩

theorem Agree.trans {ls : List Lookup} {s s' s'' : Store} (h : Agree ls s s')
    (h' : Agree ls s' s'') : Agree ls s s'' := by
  refine ⟨h'.1.trans h.1, fun l hl p hp n hn => ?_⟩
  have hp' : s'.book.lookup l = some p := (lookup_congr h.1 l).trans hp
  exact (h'.2 l hl p hp' n hn).trans (h.2 l hl p hp n hn)

/-- Context changes, but while a snapshot is to come they leave alone the names that an earlier
snapshot still fills. -/
def contextRely (bridgeId : String) : Rely Moment Store where
  env m s s' := OwnerStep bridgeId s s' ∧ Agree m.earlier s s'
  pre _ _ := True

/-- The live context is on record. -/
def ContextRecorded (s : Store) : Prop := s.context.values ∈ s.contexts

/-- A label leaves the context as it is, or records the one it sets. -/
theorem OwnerStep.context_cases {bridgeId : String} {s s' : Store} (h : OwnerStep bridgeId s s') :
    (s'.context.values = s.context.values ∧ s'.contexts = s.contexts) ∨
      s'.contexts = s'.context.values :: s.contexts := by
  obtain ⟨l, h⟩ := h
  cases Store.next_effect h with
  | quiet _ _ hv hc => exact .inl ⟨hv, hc⟩
  | policy _ _ _ hv hc => exact .inl ⟨hv, hc⟩
  | context _ _ hc => exact .inr hc

/-- What the steps of one wait keep. -/
structure Waited (ls : List Lookup) (s s' : Store) : Prop where
  agree : Agree ls s s'
  recorded : ContextRecorded s → ContextRecorded s'
  contexts : ∀ c ∈ s.contexts, c ∈ s'.contexts

theorem Waited.refl (ls : List Lookup) (s : Store) : Waited ls s s :=
  ⟨.refl ls s, id, fun _ h => h⟩

theorem Waited.trans {ls : List Lookup} {s s' s'' : Store} (h : Waited ls s s')
    (h' : Waited ls s' s'') : Waited ls s s'' :=
  ⟨h.agree.trans h'.agree, h'.recorded ∘ h.recorded, fun c hc => h'.contexts c (h.contexts c hc)⟩

theorem Waited.mono {ls ls' : List Lookup} {s s' : Store} (h : Waited ls s s')
    (hl : ∀ l ∈ ls', l ∈ ls) : Waited ls' s s' :=
  ⟨⟨h.agree.1, fun l hm => h.agree.2 l (hl l hm)⟩, h.recorded, h.contexts⟩

theorem waited_of_steps {bridgeId : String} {m : Moment} {s s' : Store}
    (h : Relation.ReflTransGen ((contextRely bridgeId).env m) s s') : Waited m.earlier s s' := by
  refine keep_of_steps (I := Waited m.earlier s) h (fun x y hs hx => hx.trans ⟨hs.2, ?_, ?_⟩)
    (.refl _ s)
  · rcases hs.1.context_cases with ⟨hv, hc⟩ | hc
    · intro hr; rwa [ContextRecorded, hv, hc]
    · intro _; rw [ContextRecorded, hc]; exact List.mem_cons_self
  · intro c hm
    rcases hs.1.context_cases with ⟨-, hc⟩ | hc
    · rwa [hc]
    · rw [hc]; exact List.mem_cons_of_mem _ hm

section

variable {bridgeId : String} {s s' : Store} {earlier : List Lookup}
  {after : List (ContextValues × Lookup)} {values : ContextValues}

/-- What a floor applies is what its lookup finds, filled from its snapshot. -/
theorem resolveFloor_filled {floor : CrossingFloor} {plan : FloorPlan}
    (h : Exec (contextRely bridgeId) s (resolveFloor earlier after values floor) s' (.ok plan)) :
    Waited earlier s s' ∧ ∀ f ∈ plan.restriction, s.book.lookup floor.lookup = some f.predicate ∧
      fillContext values f.predicate = .ok f.filled := by
  obtain ⟨s₁, he₁, -, h⟩ := exec_sect_iff.1 h
  have hw₁ := waited_of_steps he₁
  split_ifs at h
  · obtain ⟨s₂, he₂, -, h⟩ := exec_sect_iff.1 h
    have hw₂ := hw₁.trans (waited_of_steps he₂)
    rcases exec_bind_iff.1 h with ⟨e, he, -⟩ | ⟨restriction, s₃, hf, h₃⟩
    · cases he
    · obtain ⟨rfl, hf⟩ := exec_ofExcept_iff.1 hf
      obtain ⟨rfl, hp⟩ := exec_ret_iff.1 h₃
      cases hp
      refine ⟨hw₂, fun f hf' => ⟨?_, fillOption_filledIn hf.symm f (by simpa using hf')⟩⟩
      have hf' : restriction = some f := hf'
      rw [← lookup_congr hw₂.agree.1, ← fillOption_ok hf.symm, hf']
      rfl
  · obtain ⟨-, hr⟩ := exec_throw_iff.1 h
    cases hr

/-- What floors apply is what their lookups find, filled from their snapshot. -/
theorem resolveFloors_filled {floors : List CrossingFloor} {plans : List FloorPlan}
    (h : Exec (contextRely bridgeId) s (resolveFloors earlier after values floors) s' (.ok plans)) :
    Waited earlier s s' ∧ FilledIn values (restrictions plans) ∧
      ∀ f ∈ restrictions plans, ∃ floor ∈ floors,
        s.book.lookup floor.lookup = some f.predicate := by
  induction floors generalizing s plans with
  | nil =>
    obtain ⟨rfl, hr⟩ := exec_ret_iff.1 h
    cases hr
    exact ⟨.refl _ _, fun f hf => (by cases hf), fun f hf => (by cases hf)⟩
  | cons floor floors ih =>
    rcases exec_bind_iff.1 h with ⟨e, he, -⟩ | ⟨plan, s₁, h₁, h₂⟩
    · cases he
    rcases exec_bind_iff.1 h₂ with ⟨e, he, -⟩ | ⟨plans', s₂, h₃, h₄⟩
    · cases he
    obtain ⟨rfl, hr⟩ := exec_ret_iff.1 h₄
    cases hr
    obtain ⟨hw₁, hf₁⟩ := resolveFloor_filled h₁
    obtain ⟨hw₂, hf₂, hl₂⟩ := ih h₃
    have split : restrictions (plan :: plans') = plan.restriction.toList ++ restrictions plans' := by
      cases hp : plan.restriction <;> simp [restrictions, hp]
    refine ⟨hw₁.trans hw₂, ?_, ?_⟩
    · rw [split, filledIn_append]
      exact ⟨fun f hf => (hf₁ f (by simpa using hf)).2, hf₂⟩
    · intro f hf
      rw [split] at hf
      rcases List.mem_append.1 hf with hf | hf
      · exact ⟨floor, List.mem_cons_self, (hf₁ f (by simpa using hf)).1⟩
      · obtain ⟨floor', hm, hl⟩ := hl₂ f hf
        exact ⟨floor', List.mem_cons_of_mem _ hm, (lookup_congr hw₁.agree.1 _) ▸ hl⟩

/-- Predicates that lookups find are filled alike after a wait that leaves their names alone. -/
theorem Agree.fill {ls : List Lookup} {p e : Expr} {l : Lookup} (h : Agree ls s s')
    (hl : l ∈ ls) (hp : s.book.lookup l = some p)
    (hf : fillContext s.context.values p = .ok e) : fillContext s'.context.values p = .ok e :=
  (fillContext_congr (h.2 l hl p hp)).trans hf

theorem mem_restrictions_flatten {plans : List FloorPlan} {rest : List (List FloorPlan)} :
    restrictions (plans :: rest).flatten = restrictions plans ++ restrictions rest.flatten := by
  rw [List.flatten_cons, restrictions, List.filterMap_append]
  rfl

/-- What the fragments of a read apply is filled from one context, and so is what the lookups
before them found. -/
theorem readFragments_filled {fragments : List (List CrossingFloor)} {taken : List Lookup}
    {plans : List (List FloorPlan)} (hr : ContextRecorded s)
    (h : Exec (contextRely bridgeId) s (readFragments taken fragments) s' (.ok plans)) :
    ∃ s₁, Waited taken s s₁ ∧ ContextRecorded s₁ ∧ (∀ c ∈ s₁.contexts, c ∈ s'.contexts) ∧
      FilledIn s₁.context.values (restrictions plans.flatten) := by
  induction fragments generalizing s taken plans with
  | nil =>
    obtain ⟨rfl, hr'⟩ := exec_ret_iff.1 h
    cases hr'
    exact ⟨s', .refl _ _, hr, fun _ h => h, fun f hf => (by cases hf)⟩
  | cons fragment fragments ih =>
    obtain ⟨s₁, he₁, -, h₁⟩ := exec_sect_iff.1 h
    have hw₁ : Waited taken s s₁ := waited_of_steps he₁
    have hr₁ := hw₁.recorded hr
    rcases exec_bind_iff.1 h₁ with ⟨e, he, -⟩ | ⟨plans₁, s₂, h₂, h₃⟩
    · cases he
    rcases exec_bind_iff.1 h₃ with ⟨e, he, -⟩ | ⟨plans₂, s₃, h₄, h₅⟩
    · cases he
    obtain ⟨rfl, hr'⟩ := exec_ret_iff.1 h₅
    cases hr'
    obtain ⟨hw₂, hfill₂, hlook₂⟩ := resolveFloors_filled h₂
    rw [mem_restrictions_flatten]
    cases fragments with
    | nil =>
      obtain ⟨rfl, hr'⟩ := exec_ret_iff.1 h₄
      cases hr'
      exact ⟨s₁, hw₁, hr₁, hw₂.contexts, by simpa [restrictions] using hfill₂⟩
    | cons next rest =>
      obtain ⟨s₃, hw₃, hr₃, hc₃, hfill₃⟩ := ih (hw₂.recorded hr₁) h₄
      have hw : Waited (taken ++ fragment.map (·.lookup)) s₁ s₃ := hw₂.trans hw₃
      refine ⟨s₃, hw₁.trans (hw.mono fun l hl => List.mem_append_left _ hl), hr₃, hc₃,
        filledIn_append.2 ⟨fun f hf => ?_, hfill₃⟩⟩
      obtain ⟨floor, hm, hl⟩ := hlook₂ f hf
      exact hw.agree.fill (List.mem_append_right _ (List.mem_map.2 ⟨floor, hm, rfl⟩)) hl (hfill₂ f hf)

theorem finishShape_filled {target : CrossingWriteTarget} {built : CrossingWriteStatement}
    {u c v : Option Expr} {shaped : ShapedWrite}
    (h : finishShape target values built u c v = .ok shaped) :
    FilledIn values shaped.filled ∧ ∀ f ∈ shaped.filled, ∀ n ∈ parameterNames f.predicate,
      ∃ p, (u = some p ∨ c = some p ∨ v = some p) ∧ n ∈ parameterNames p := by
  obtain ⟨restriction, hr, h⟩ := bind_eq_ok h
  obtain ⟨check, hc, h⟩ := bind_eq_ok h
  cases h
  refine ⟨filledIn_append.2 ⟨fillOption_filledIn hr, fillOption_filledIn hc⟩, fun f hf n hn => ?_⟩
  rcases List.mem_append.1 hf with hf | hf
  · have hp : restrict v u = some f.predicate := by
      rw [← fillOption_ok hr, Option.mem_toList.1 hf]
      rfl
    obtain ⟨q, hq | hq, hn⟩ := mem_parameterNames_restrict hp hn
    · exact ⟨q, .inl hq, hn⟩
    · exact ⟨q, .inr (.inr hq), hn⟩
  · have hp : c = some f.predicate := by
      rw [← fillOption_ok hc, Option.mem_toList.1 hf]
      rfl
    exact ⟨_, .inr (.inl hp), hn⟩

/-- The shaper fills what its lookups find. -/
theorem shape_filled {target : CrossingWriteTarget} {built : CrossingWriteStatement}
    {shaped : ShapedWrite}
    (h : Exec (contextRely bridgeId) s (shape target values built) s' (.ok shaped)) :
    Waited [] s s' ∧ FilledIn values shaped.filled ∧
      ∀ f ∈ shaped.filled, ∀ n ∈ parameterNames f.predicate, ∃ l ∈ target.lookups,
        ∃ p, s.book.lookup l = some p ∧ n ∈ parameterNames p := by
  obtain ⟨s₁, he₁, -, h⟩ := exec_sect_iff.1 h
  obtain ⟨s₂, he₂, -, h⟩ := exec_sect_iff.1 h
  have hw₁ : Waited [] s s₁ := waited_of_steps he₁
  have hw₂ : Waited [] s s₂ := hw₁.trans (waited_of_steps he₂)
  split_ifs at h with hreads
  · obtain ⟨s₃, he₃, -, h⟩ := exec_sect_iff.1 h
    have hw₃ : Waited [] s s₃ := hw₂.trans (waited_of_steps he₃)
    obtain ⟨rfl, h⟩ := exec_ofExcept_iff.1 h
    obtain ⟨hf, hn⟩ := finishShape_filled h.symm
    refine ⟨hw₃, hf, fun f hm n hmem => ?_⟩
    obtain ⟨p, hp, hn⟩ := hn f hm n hmem
    rw [lookup_congr hw₁.agree.1, lookup_congr hw₂.agree.1, lookup_congr hw₃.agree.1] at hp
    rcases hp with hp | hp | hp
    · exact ⟨_, by simp [CrossingWriteTarget.lookups], p, hp, hn⟩
    · exact ⟨_, by simp [CrossingWriteTarget.lookups], p, hp, hn⟩
    · exact ⟨_, by simp [CrossingWriteTarget.lookups, hreads], p, hp, hn⟩
  · obtain ⟨rfl, h⟩ := exec_ofExcept_iff.1 h
    obtain ⟨hf, hn⟩ := finishShape_filled h.symm
    refine ⟨hw₂, hf, fun f hm n hmem => ?_⟩
    obtain ⟨p, hp, hn⟩ := hn f hm n hmem
    rw [lookup_congr hw₁.agree.1, lookup_congr hw₂.agree.1] at hp
    rcases hp with hp | hp | hp
    · exact ⟨_, by simp [CrossingWriteTarget.lookups], p, hp, hn⟩
    · exact ⟨_, by simp [CrossingWriteTarget.lookups], p, hp, hn⟩
    · cases hp

/-- The snapshot of the shaper, and the wait after it. -/
theorem policyShaper_snapshot {target : CrossingWriteTarget} {again : Bool}
    (hr : ContextRecorded s)
    (h : Exec (contextRely bridgeId) s (policyShaper target again) s' (.ok values)) :
    ∃ s₁, values = s₁.context.values ∧ ContextRecorded s₁ ∧
      Waited (if again then target.lookups else []) s₁ s' := by
  obtain ⟨s₁, he₁, -, h⟩ := exec_sect_iff.1 h
  have hr₁ := (waited_of_steps he₁).recorded hr
  dsimp only at h
  by_cases hreads : target.readsItsRows = true
  · rw [if_pos hreads] at h
    obtain ⟨s₂, he₂, -, h⟩ := exec_sect_iff.1 h
    have hw₂ := waited_of_steps he₂
    split_ifs at h
    · obtain ⟨rfl, hv⟩ := exec_ret_iff.1 h
      exact ⟨s₁, Except.ok.inj hv, hr₁, hw₂⟩
    · cases (exec_throw_iff.1 h).2
  · rw [if_neg hreads] at h
    obtain ⟨rfl, hv⟩ := exec_ret_iff.1 h
    exact ⟨s', Except.ok.inj hv, hr₁, .refl _ _⟩

/-- What a write applies is filled from one context. -/
theorem write_filled {target : CrossingWriteTarget} {plan : Option (List CrossingFloor)}
    {built : CrossingWriteStatement} {plans : List FloorPlan} {shaped : ShapedWrite}
    (hr : ContextRecorded s)
    (h : Exec (contextRely bridgeId) s (write target plan built) s' (.ok (plans, shaped))) :
    ∃ c ∈ s'.contexts, FilledIn c (restrictions plans ++ shaped.filled) := by
  rcases exec_bind_iff.1 h with ⟨e, he, -⟩ | ⟨values, s₂, hp, h₂⟩
  · cases he
  obtain ⟨s₁, rfl, hr₁, hw₂⟩ := policyShaper_snapshot hr hp
  cases plan with
  | none =>
    rcases exec_bind_iff.1 h₂ with ⟨e, he, -⟩ | ⟨shaped', s₃, hs, h₃⟩
    · cases he
    obtain ⟨rfl, he⟩ := exec_ret_iff.1 h₃
    cases he
    obtain ⟨hw₃, hf, -⟩ := shape_filled hs
    exact ⟨_, hw₃.contexts _ (hw₂.contexts _ hr₁), by simpa [restrictions] using hf⟩
  | some floors =>
    obtain ⟨s₃, he₃, -, h₃⟩ := exec_sect_iff.1 h₂
    have hw₃ : Waited target.lookups s₁ s₃ := hw₂.trans (waited_of_steps he₃)
    rcases exec_bind_iff.1 h₃ with ⟨e, he, -⟩ | ⟨plans', s₄, hf, h₄⟩
    · cases he
    rcases exec_bind_iff.1 h₄ with ⟨e, he, -⟩ | ⟨shaped', s₅, hs, h₅⟩
    · cases he
    obtain ⟨rfl, he⟩ := exec_ret_iff.1 h₅
    cases he
    obtain ⟨hw₄, hfill₄, -⟩ := resolveFloors_filled hf
    obtain ⟨hw₅, hfill₅, hnames⟩ := shape_filled hs
    refine ⟨_, hw₅.contexts _ (hw₄.contexts _ (hw₃.recorded hr₁)),
      filledIn_append.2 ⟨hfill₄, fun f hm => ?_⟩⟩
    -- the shaper's predicates read the same values in the later snapshot
    refine (fillContext_congr fun n hn => ?_).trans (hfill₅ f hm)
    obtain ⟨l, hl, p, hp, hn⟩ := hnames f hm n hn
    rw [lookup_congr hw₄.agree.1, lookup_congr hw₃.agree.1] at hp
    exact hw₃.agree.2 l hl p hp n hn

/-- **One context fills every predicate of a statement.** -/
theorem DataStatement.one_context {statement : DataStatement} {fs : List Filled}
    (hr : ContextRecorded s)
    (h : Exec (contextRely bridgeId) s statement.applied s' (.ok fs)) :
    ∃ c ∈ s'.contexts, FilledIn c fs := by
  cases statement with
  | read fragments =>
    rcases exec_bind_iff.1 h with ⟨e, he, -⟩ | ⟨plans, s₁, h₁, h₂⟩
    · cases he
    obtain ⟨rfl, hr'⟩ := exec_ret_iff.1 h₂
    cases hr'
    obtain ⟨s₁, -, hr₁, hc, hf⟩ := readFragments_filled hr h₁
    exact ⟨_, hc _ hr₁, hf⟩
  | write target plan built =>
    rcases exec_bind_iff.1 h with ⟨e, he, -⟩ | ⟨⟨plans, shaped⟩, s₁, h₁, h₂⟩
    · cases he
    obtain ⟨rfl, hr'⟩ := exec_ret_iff.1 h₂
    cases hr'
    exact write_filled hr h₁

end

/-- Context changes without any condition. -/
def anyContextRely (bridgeId : String) : Rely Moment Store :=
  .any fun s s' => OwnerStep bridgeId s s' ∧ s'.book.tables = s.book.tables

namespace Sample

/-- The rows of the tenant in the context. -/
def tenantRows : Expr := tenantIs (.parameter "tenant")

/-- The context of a tenant. -/
def tenant (i : Int) : ContextValues := (∅ : ContextValues).insert "tenant" (.integer i)

/-- The owner moves the guest from tenant 1 to tenant 2. -/
def moving : Store :=
  store (grantOver tenantRows) (tenant 1) [.context "tenant" (.integer 2)]

/-- A statement that reads the table in two fragments. -/
def twoFragments : DataStatement := .read [[floor], [floor]]

end Sample

/-- A context change between two fragments shows one statement two tenants. -/
theorem DataStatement.not_one_context :
    ¬ ∀ (bridgeId : String) (s s' : Store) (statement : DataStatement) (fs : List Filled),
      ContextRecorded s → Exec (anyContextRely bridgeId) s statement.applied s' (.ok fs) →
        ∃ c ∈ s'.contexts, FilledIn c fs := by
  intro h
  have step : OwnerStep "b" Sample.moving
      ((Sample.moving.next "b" (.finish 0)).getD Sample.moving) := ⟨.finish 0, rfl⟩
  have run : Exec (anyContextRely "b") Sample.moving Sample.twoFragments.applied
      ((Sample.moving.next "b" (.finish 0)).getD Sample.moving)
      (.ok [⟨Sample.tenantRows, Sample.tenantIs (.constant (.integer 1))⟩,
        ⟨Sample.tenantRows, Sample.tenantIs (.constant (.integer 2))⟩]) :=
    .sect .refl trivial (.sect .refl trivial (.sect .refl trivial
      (.sect (.single ⟨step, rfl⟩) trivial (.sect .refl trivial (.sect .refl trivial
        (.ret _ _))))))
  obtain ⟨c, -, hc⟩ := h _ _ _ _ _ List.mem_cons_self run
  have h₁ := hc _ List.mem_cons_self
  have h₂ := hc _ (List.mem_cons_of_mem _ List.mem_cons_self)
  rw [h₁] at h₂
  simp [Sample.tenantIs] at h₂

namespace Sample

/-- The owner sets a name that no predicate has. -/
def placing : Store :=
  store (grantOver tenantRows) (tenant 1) [.context "region" (.varchar "eu")]

end Sample

/-- A context change between two fragments that touches no name of theirs. -/
theorem DataStatement.one_context_placed :
    ∃ c ∈ ((Sample.placing.next "b" (.finish 0)).getD Sample.placing).contexts,
      FilledIn c [⟨Sample.tenantRows, Sample.tenantIs (.constant (.integer 1))⟩,
        ⟨Sample.tenantRows, Sample.tenantIs (.constant (.integer 1))⟩] := by
  have step : OwnerStep "b" Sample.placing
      ((Sample.placing.next "b" (.finish 0)).getD Sample.placing) := ⟨.finish 0, rfl⟩
  have agree : Agree [Sample.floor.lookup] Sample.placing
      ((Sample.placing.next "b" (.finish 0)).getD Sample.placing) := by
    refine ⟨rfl, fun l hl p hp n hn => ?_⟩
    rw [List.mem_singleton.1 hl] at hp
    obtain rfl : Sample.tenantRows = p := Option.some.inj hp
    obtain rfl : n = "tenant" := List.mem_singleton.1 hn
    rfl
  have run : Exec (contextRely "b") Sample.placing Sample.twoFragments.applied
      ((Sample.placing.next "b" (.finish 0)).getD Sample.placing) (.ok _) :=
    .sect .refl trivial (.sect .refl trivial (.sect .refl trivial
      (.sect (.single ⟨step, agree⟩) trivial (.sect .refl trivial (.sect .refl trivial
        (.ret _ _))))))
  exact DataStatement.one_context List.mem_cons_self run

end VirtualCatalog
