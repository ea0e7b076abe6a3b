import VirtualCatalog.Bridge.ContextRace

/-!
# No statement meets an unset name

A predicate is installed only if the context of that moment has its names, and the context only
grows, so a predicate looked up before the snapshot is always filled.  An `ALTER` does that; a read
or a write takes its snapshot first, and a commit after it can install a predicate with a newer
name.

* `Fillable` : the predicates that the lookups would find have only names of their snapshots.
* `DataStatement.noInternal` : no read or write raises the internal error of an unset name, if the
  commits between a snapshot and its lookups keep them fillable.
* `alter_noInternal` : no `ALTER` ever does.
-/

namespace VirtualCatalog

open Prog

/-- The statement did not fail with an internal error, which takes the whole database down. -/
def NoInternal {α : Type} (r : Except BridgeError α) : Prop :=
  ∀ e, r = .error e → e.kind ≠ .internal

/-- The predicates that the lookups would find have only names of the snapshots they come with. -/
def Fillable (coming : List (ContextValues × Lookup)) (s : Store) : Prop :=
  ∀ c ∈ coming, ∀ p, s.book.lookup c.2 = some p → FilledBy c.1 p

/-- Any calls of the owner, but a commit between a snapshot and its lookups installs for them only
predicates that the snapshot fills. -/
def fillingRely (bridgeId : String) : Rely Moment Store where
  env m s s' := OwnerStep bridgeId s s' ∧
    (s'.book.tables = s.book.tables ∨ Fillable m.coming s')
  pre _ _ := True

theorem noInternal_ok {α : Type} (a : α) : NoInternal (.ok a) := fun _ h => by cases h

theorem noInternal_throw {α : Type} {e : BridgeError} (h : e.kind ≠ .internal) :
    NoInternal (.error e : Except BridgeError α) := fun _ he => by cases he; exact h

section

variable {bridgeId : String} {s s' : Store} {earlier : List Lookup}
  {after : List (ContextValues × Lookup)} {values : ContextValues}

/-- The steps of one wait keep the predicates closed and fillable. -/
theorem fillable_of_steps {m : Moment} (hc : Closed s) (hf : Fillable m.coming s)
    (h : Relation.ReflTransGen ((fillingRely bridgeId).env m) s s') :
    Closed s' ∧ Fillable m.coming s' := by
  refine keep_of_steps (I := fun x => Closed x ∧ Fillable m.coming x) h ?_ ⟨hc, hf⟩
  rintro x y ⟨⟨l, hl⟩, ht⟩ ⟨hx, hfx⟩
  refine ⟨(hx.next hl).1, ?_⟩
  rcases ht with ht | ht
  · intro c hm p hp
    exact hfx c hm p (by rwa [lookup_congr ht] at hp)
  · exact ht

/-- A snapshot fills every live predicate. -/
theorem Closed.fillable (h : Closed s) (ls : List Lookup) :
    Fillable (ls.map fun l => (s.context.values, l)) s := by
  intro c hc p hp
  obtain ⟨l, -, rfl⟩ := List.mem_map.1 hc
  exact h.lookup hp

theorem resolveFloor_noInternal {floor : CrossingFloor} {r : Except BridgeError FloorPlan}
    (hc : Closed s) (hf : Fillable ((values, floor.lookup) :: after) s)
    (h : Exec (fillingRely bridgeId) s (resolveFloor earlier after values floor) s' r) :
    NoInternal r ∧ Closed s' ∧ Fillable after s' := by
  obtain ⟨s₁, he₁, -, h₁⟩ := exec_sect_iff.1 h
  obtain ⟨hc₁, hf₁⟩ := fillable_of_steps hc hf he₁
  split_ifs at h₁
  · obtain ⟨s₂, he₂, -, h₂⟩ := exec_sect_iff.1 h₁
    obtain ⟨hc₂, hf₂⟩ := fillable_of_steps hc₁ hf₁ he₂
    obtain ⟨f, hfill⟩ := exists_fillOption fun p hp => hf₂ _ List.mem_cons_self p hp
    rw [hfill] at h₂
    obtain ⟨rfl, rfl⟩ := exec_ret_iff.1 h₂
    exact ⟨noInternal_ok _, hc₂, fun c hm => hf₂ c (List.mem_cons_of_mem _ hm)⟩
  · obtain ⟨rfl, rfl⟩ := exec_throw_iff.1 h₁
    exact ⟨noInternal_throw (by simp [noPermission]), hc₁,
      fun c hm => hf₁ c (List.mem_cons_of_mem _ hm)⟩

theorem resolveFloors_noInternal {floors : List CrossingFloor}
    {r : Except BridgeError (List FloorPlan)} (hc : Closed s)
    (hf : Fillable (floors.map (fun f => (values, f.lookup)) ++ after) s)
    (h : Exec (fillingRely bridgeId) s (resolveFloors earlier after values floors) s' r) :
    NoInternal r ∧ Closed s' ∧ Fillable after s' := by
  induction floors generalizing s s' r with
  | nil =>
    obtain ⟨rfl, rfl⟩ := exec_ret_iff.1 h
    exact ⟨noInternal_ok _, hc, hf⟩
  | cons floor floors ih =>
    rcases exec_bind_iff.1 h with ⟨e, rfl, h₁⟩ | ⟨plan, s₁, h₁, h₂⟩
    · obtain ⟨hn, hc₁, hf₁⟩ := resolveFloor_noInternal hc hf h₁
      exact ⟨noInternal_throw (hn e rfl), hc₁, fun c hm => hf₁ c (List.mem_append_right _ hm)⟩
    · obtain ⟨-, hc₁, hf₁⟩ := resolveFloor_noInternal hc hf h₁
      rcases exec_bind_iff.1 h₂ with ⟨e, rfl, h₃⟩ | ⟨plans, s₂, h₃, h₄⟩
      · obtain ⟨hn, hc₂, hf₂⟩ := ih hc₁ hf₁ h₃
        exact ⟨noInternal_throw (hn e rfl), hc₂, hf₂⟩
      · obtain ⟨-, hc₂, hf₂⟩ := ih hc₁ hf₁ h₃
        obtain ⟨rfl, rfl⟩ := exec_ret_iff.1 h₄
        exact ⟨noInternal_ok _, hc₂, hf₂⟩

theorem readFragments_noInternal {fragments : List (List CrossingFloor)} {taken : List Lookup}
    {r : Except BridgeError (List (List FloorPlan))} (hc : Closed s)
    (h : Exec (fillingRely bridgeId) s (readFragments taken fragments) s' r) :
    NoInternal r := by
  induction fragments generalizing s s' taken r with
  | nil =>
    obtain ⟨rfl, rfl⟩ := exec_ret_iff.1 h
    exact noInternal_ok _
  | cons fragment fragments ih =>
    obtain ⟨s₁, he₁, -, h₁⟩ := exec_sect_iff.1 h
    obtain ⟨hc₁, -⟩ := fillable_of_steps hc (fun _ hm => (by cases hm)) he₁
    have hf₁ : Fillable (fragment.map (fun f => (s₁.context.values, f.lookup)) ++ []) s₁ := by
      have := hc₁.fillable (fragment.map (·.lookup))
      rwa [List.map_map, ← List.append_nil (List.map _ _)] at this
    rcases exec_bind_iff.1 h₁ with ⟨e, rfl, h₂⟩ | ⟨plans, s₂, h₂, h₃⟩
    · exact noInternal_throw ((resolveFloors_noInternal hc₁ hf₁ h₂).1 e rfl)
    · obtain ⟨-, hc₂, -⟩ := resolveFloors_noInternal hc₁ hf₁ h₂
      rcases exec_bind_iff.1 h₃ with ⟨e, rfl, h₄⟩ | ⟨rest, s₃, h₄, h₅⟩
      · exact noInternal_throw (ih hc₂ h₄ e rfl)
      · obtain ⟨rfl, rfl⟩ := exec_ret_iff.1 h₅
        exact noInternal_ok _

/-- A restriction is filled where its parts are. -/
theorem shape_noInternal {target : CrossingWriteTarget} {built : CrossingWriteStatement}
    {r : Except BridgeError ShapedWrite} (hc : Closed s)
    (hf : Fillable (target.lookups.map fun l => (values, l)) s)
    (h : Exec (fillingRely bridgeId) s (shape target values built) s' r) : NoInternal r := by
  have split : (target.lookups.map fun l => (values, l)) = (values, target.usingLookup) ::
      (values, target.checkLookup) ::
        (if target.readsItsRows then [(values, target.visibleLookup)] else []) := by
    rw [CrossingWriteTarget.lookups]
    split_ifs <;> rfl
  rw [split] at hf
  obtain ⟨s₁, he₁, -, h⟩ := exec_sect_iff.1 h
  obtain ⟨hc₁, hf₁⟩ := fillable_of_steps hc hf he₁
  obtain ⟨s₂, he₂, -, h⟩ := exec_sect_iff.1 h
  obtain ⟨hc₂, hf₂⟩ := fillable_of_steps hc₁ (fun c hm => hf₁ c (List.mem_cons_of_mem _ hm)) he₂
  have hu := hf₁ _ List.mem_cons_self
  have hch := hf₂ _ List.mem_cons_self
  split_ifs at h with hreads
  · obtain ⟨s₃, he₃, -, h⟩ := exec_sect_iff.1 h
    have hv₂ : Fillable [(values, target.visibleLookup)] s₂ := fun c hm =>
      hf₂ c (List.mem_cons_of_mem _ (by rwa [if_pos hreads]))
    obtain ⟨-, hf₃⟩ := fillable_of_steps hc₂ hv₂ he₃
    obtain ⟨rfl, rfl⟩ := exec_ofExcept_iff.1 h
    obtain ⟨shaped, hs⟩ := finishShape_succeeds target built hu hch
      (hf₃ (values, target.visibleLookup) List.mem_cons_self)
    rw [hs]
    exact noInternal_ok _
  · obtain ⟨rfl, rfl⟩ := exec_ofExcept_iff.1 h
    obtain ⟨shaped, hs⟩ := finishShape_succeeds (v := none) target built hu hch
      fun e he => (by cases he)
    rw [hs]
    exact noInternal_ok _

theorem policyShaper_noInternal {target : CrossingWriteTarget} {again : Bool}
    {r : Except BridgeError ContextValues} (hc : Closed s)
    (h : Exec (fillingRely bridgeId) s (policyShaper target again) s' r) :
    NoInternal r ∧ Closed s' ∧
      ∀ values, r = .ok values → Fillable (target.lookups.map fun l => (values, l)) s' := by
  obtain ⟨s₁, he₁, -, h⟩ := exec_sect_iff.1 h
  obtain ⟨hc₁, -⟩ := fillable_of_steps hc (fun _ hm => (by cases hm)) he₁
  dsimp only at h
  by_cases hreads : target.readsItsRows = true
  · rw [if_pos hreads] at h
    obtain ⟨s₂, he₂, -, h⟩ := exec_sect_iff.1 h
    obtain ⟨hc₂, hf₂⟩ := fillable_of_steps hc₁ (hc₁.fillable _) he₂
    split_ifs at h
    · obtain ⟨rfl, rfl⟩ := exec_ret_iff.1 h
      refine ⟨noInternal_ok _, hc₂, fun values hv => ?_⟩
      cases hv
      exact hf₂
    · obtain ⟨rfl, rfl⟩ := exec_throw_iff.1 h
      exact ⟨noInternal_throw (by simp [noPermission]), hc₂, fun _ hv => (by cases hv)⟩
  · rw [if_neg hreads] at h
    obtain ⟨rfl, rfl⟩ := exec_ret_iff.1 h
    refine ⟨noInternal_ok _, hc₁, fun values hv => ?_⟩
    cases hv
    exact hc₁.fillable _

theorem write_noInternal {target : CrossingWriteTarget} {plan : Option (List CrossingFloor)}
    {built : CrossingWriteStatement} {r : Except BridgeError (List FloorPlan × ShapedWrite)}
    (hc : Closed s) (h : Exec (fillingRely bridgeId) s (write target plan built) s' r) :
    NoInternal r := by
  have shaped_end : ∀ {s₁ : Store} {values : ContextValues} {plans : List FloorPlan},
      Closed s₁ → Fillable (target.lookups.map fun l => (values, l)) s₁ →
      Exec (fillingRely bridgeId) s₁
        ((shape target values built).bind fun shaped => .ret (plans, shaped)) s' r →
      NoInternal r := by
    intro s₁ values plans hc₁ hf₁ h
    rcases exec_bind_iff.1 h with ⟨e, rfl, hs⟩ | ⟨shaped, s₂, hs, h₂⟩
    · exact noInternal_throw (shape_noInternal hc₁ hf₁ hs e rfl)
    · obtain ⟨rfl, rfl⟩ := exec_ret_iff.1 h₂
      exact noInternal_ok _
  rcases exec_bind_iff.1 h with ⟨e, rfl, hp⟩ | ⟨values, s₁, hp, h₁⟩
  · exact noInternal_throw ((policyShaper_noInternal hc hp).1 e rfl)
  obtain ⟨-, hc₁, hf₁⟩ := policyShaper_noInternal hc hp
  have hf₁ := hf₁ values rfl
  cases plan with
  | none => exact shaped_end hc₁ hf₁ h₁
  | some floors =>
    obtain ⟨s₂, he₂, -, h₂⟩ := exec_sect_iff.1 h₁
    obtain ⟨hc₂, hf₂⟩ := fillable_of_steps hc₁ hf₁ he₂
    -- the second snapshot fills the floors, the first one the shaper
    have hboth : Fillable (floors.map (fun f => (s₂.context.values, f.lookup)) ++
        target.lookups.map fun l => (values, l)) s₂ := by
      intro c hm
      rcases List.mem_append.1 hm with hm | hm
      · have hfloor := hc₂.fillable (floors.map (·.lookup))
        rw [List.map_map] at hfloor
        exact hfloor c hm
      · exact hf₂ c hm
    rcases exec_bind_iff.1 h₂ with ⟨e, rfl, hf⟩ | ⟨plans, s₃, hf, h₃⟩
    · exact noInternal_throw ((resolveFloors_noInternal hc₂ hboth hf).1 e rfl)
    · obtain ⟨-, hc₃, hf₃⟩ := resolveFloors_noInternal hc₂ hboth hf
      exact shaped_end hc₃ hf₃ h₃

/-- **No read or write meets a name that its snapshot cannot fill.** -/
theorem DataStatement.noInternal {statement : DataStatement} {r : Except BridgeError (List Filled)}
    (hc : Closed s) (h : Exec (fillingRely bridgeId) s statement.applied s' r) : NoInternal r := by
  cases statement with
  | read fragments =>
    rcases exec_bind_iff.1 h with ⟨e, rfl, h₁⟩ | ⟨plans, s₁, -, h₂⟩
    · exact noInternal_throw (readFragments_noInternal hc h₁ e rfl)
    · obtain ⟨rfl, rfl⟩ := exec_ret_iff.1 h₂
      exact noInternal_ok _
  | write target plan built =>
    rcases exec_bind_iff.1 h with ⟨e, rfl, h₁⟩ | ⟨plans, s₁, -, h₂⟩
    · exact noInternal_throw (write_noInternal hc h₁ e rfl)
    · obtain ⟨rfl, rfl⟩ := exec_ret_iff.1 h₂
      exact noInternal_ok _

theorem noInternal_bind {α β : Type} {x : Except BridgeError α} {f : α → Except BridgeError β}
    (hx : NoInternal x) (hf : ∀ a, x = .ok a → NoInternal (f a)) : NoInternal (x >>= f) := by
  cases x with
  | error e => exact noInternal_throw (hx e rfl)
  | ok a => exact hf a rfl

theorem noInternal_throwIf {c : Prop} [Decidable c] {e : BridgeError} (h : e.kind ≠ .internal) :
    NoInternal (throwIf c e) := by
  rw [throwIf]
  split_ifs
  · exact noInternal_throw h
  · exact noInternal_ok _

theorem holdsEverywhere_noInternal {folds : Expr → Bool} {g : Option SourceGrant}
    {verb : CrossingVerb} (h : ∀ g', g = some g' → ClosedGrant values g') :
    NoInternal (holdsEverywhere folds values g verb) := by
  rw [holdsEverywhere]
  split_ifs
  · exact noInternal_ok _
  · split
    · exact noInternal_ok _
    next p hp =>
      obtain ⟨g', hg', hp⟩ := Option.bind_eq_some_iff.1 hp
      obtain ⟨e, he⟩ := fillContext_ok_iff.2 ((h g' hg' verb).1 p hp)
      rw [he]
      exact noInternal_ok _

/-- **No `ALTER` meets one, whatever is committed meanwhile.** -/
theorem alter_noInternal {folds : Expr → Bool} {schema table : String}
    {r : Except BridgeError Unit} (hc : Closed s)
    (h : Exec (.any (OwnerStep bridgeId)) s (alter folds schema table) s' r) : NoInternal r := by
  have grow : ∀ {x y : Store}, Closed x → Relation.ReflTransGen (OwnerStep bridgeId) x y →
      Closed y ∧ ContextGrows x.context.values y.context.values := by
    intro x y hx hs
    refine keep_of_steps (I := fun z => Closed z ∧ ContextGrows x.context.values z.context.values)
      hs ?_ ⟨hx, fun _ hn => hn⟩
    rintro z w ⟨l, hl⟩ ⟨hz, hg⟩
    obtain ⟨hw, hg'⟩ := hz.next hl
    exact ⟨hw, fun n hn => hg' n (hg n hn)⟩
  obtain ⟨s₁, he₁, -, h⟩ := exec_sect_iff.1 h
  obtain ⟨hc₁, -⟩ := grow hc he₁
  obtain ⟨s₂, he₂, -, h⟩ := exec_sect_iff.1 h
  obtain ⟨-, hg₂⟩ := grow hc₁ he₂
  obtain ⟨rfl, rfl⟩ := exec_ofExcept_iff.1 h
  -- the grant was read before the snapshot, so the snapshot has its names
  have hclosed : ∀ g, s₁.book.tables.findGrant schema table = some g →
      ClosedGrant s'.context.values g :=
    fun g hg => (hc₁.book (tableKey schema table) g hg).mono hg₂
  refine noInternal_bind (holdsEverywhere_noInternal hclosed) fun _ _ => ?_
  refine noInternal_bind (noInternal_throwIf (by simp [noPermission])) fun _ _ => ?_
  refine noInternal_bind (holdsEverywhere_noInternal hclosed) fun _ _ => ?_
  exact noInternal_throwIf (by simp)

/-- **No statement raises the internal error of an unset name.** -/
theorem statements_noInternal (hc : Closed s) :
    (∀ (statement : DataStatement) (r : Except BridgeError (List Filled)) (s' : Store),
      Exec (fillingRely bridgeId) s statement.applied s' r → NoInternal r) ∧
    ∀ (folds : Expr → Bool) (schema table : String) (r : Except BridgeError Unit) (s' : Store),
      Exec (.any (OwnerStep bridgeId)) s (alter folds schema table) s' r → NoInternal r :=
  ⟨fun _ _ _ h => DataStatement.noInternal hc h, fun _ _ _ _ _ h => alter_noInternal hc h⟩

end

namespace Sample

/-- A source that binds every predicate, and parses every text as the rows of the tenant. -/
def view : SourceView where
  catalog := "source"
  parse _ := .ok [tenantRows]
  print _ := ""
  entry _ := some { columns := ["tenant", "amount"], probe := fun _ => .ok ["BOOLEAN"] }
  hasSchema _ := true
  keyQuery _ := .ok []
  verifyQuery _ := .ok false

/-- The owner is about to set the context of a tenant for the first time. -/
def naming : Store := store (grantOver ownRows) ∅ [.context "tenant" (.integer 2)]

/-- The owner sets the context, and then a policy that uses it. -/
def named : Store :=
  ((ownerMachine "b").exec naming
    [.finish 0, .setPolicy view (.verb orders .select ⟨true, "tenant = $tenant", ""⟩),
      .finish 0]).getD naming

theorem naming_named :
    Relation.ReflTransGen (OwnerStep "b") naming named :=
  .head ⟨.finish 0, rfl⟩ (.head
    ⟨.setPolicy view (.verb orders .select ⟨true, "tenant = $tenant", ""⟩), rfl⟩
    (.single ⟨.finish 0, rfl⟩))

end Sample

/-- A commit between the snapshot and the lookup of a read makes it fail with an internal error. -/
theorem not_statements_noInternal :
    ¬ ∀ (bridgeId : String) (s s' : Store) (statement : DataStatement)
      (r : Except BridgeError (List Filled)), Closed s →
        Exec (.any (OwnerStep bridgeId)) s statement.applied s' r → NoInternal r := by
  intro h
  have run : Exec (.any (OwnerStep "b")) Sample.naming
      (DataStatement.applied (.read [[Sample.floor]])) Sample.named
      (.error ⟨.internal, "vcatbridge: context '$tenant' is not set"⟩) :=
    .sect .refl trivial (.sect .refl trivial (.sect Sample.naming_named trivial (.throw _ _)))
  have hclosed : Closed Sample.naming :=
    Sample.closed_store (fillContext_ok_iff.1 ⟨_, rfl⟩) fun c hc => by simp at hc
  exact h _ _ _ _ _ hclosed run _ rfl rfl

namespace Sample

/-- The context has a tenant, and the owner is about to restrict select to its rows. -/
def restricting : Store :=
  store (grantOver ownRows) (tenant 1)
    [.policy (.verb orders .select ⟨true, some tenantRows, none, false⟩ {})]

/-- The rows are restricted. -/
def restricted : Store := (restricting.next "b" (.finish 0)).getD restricting

theorem filledBy_tenantRows : FilledBy (tenant 1) tenantRows := fillContext_ok_iff.1 ⟨_, rfl⟩

end Sample

/-- A policy that is installed between the snapshot and the lookup of a read, with a name that the
snapshot has; and during an `ALTER`, which it makes fail with no internal error. -/
theorem statements_noInternal_restricted :
    ∃ (r : Except BridgeError (List Filled)) (r' : Except BridgeError Unit),
      Exec (fillingRely "b") Sample.restricting (DataStatement.applied (.read [[Sample.floor]]))
        Sample.restricted r ∧ NoInternal r ∧
      Exec (.any (OwnerStep "b")) Sample.restricting (alter (fun _ => true) "main" "orders")
        Sample.restricted r' ∧ NoInternal r' := by
  have step : OwnerStep "b" Sample.restricting Sample.restricted := ⟨.finish 0, rfl⟩
  have fillable : Fillable [(Sample.tenant 1, Sample.floor.lookup)] Sample.restricted := by
    intro c hc p hp
    rw [List.mem_singleton.1 hc] at hp ⊢
    obtain rfl : Sample.tenantRows = p := Option.some.inj hp
    exact Sample.filledBy_tenantRows
  have reads : Exec (fillingRely "b") Sample.restricting
      (DataStatement.applied (.read [[Sample.floor]])) Sample.restricted (.ok _) :=
    .sect .refl trivial (.sect (.single ⟨step, .inr fillable⟩) trivial
      (.sect .refl trivial (.ret _ _)))
  have alters : Exec (.any (OwnerStep "b")) Sample.restricting
      (alter (fun _ => true) "main" "orders") Sample.restricted (.error _) :=
    .sect .refl trivial (.sect (.single step) trivial (.throw _ _))
  have hclosed : Closed Sample.restricting := by
    refine Sample.closed_store (fillContext_ok_iff.1 ⟨_, rfl⟩) fun c hc => ?_
    obtain rfl := PendingCall.policy.inj (List.mem_singleton.1 hc)
    refine ⟨fun e he => ?_, nofun⟩
    obtain rfl : Sample.tenantRows = e := Option.some.inj he
    exact Sample.filledBy_tenantRows
  have all := @statements_noInternal "b" _ hclosed
  exact ⟨_, _, reads, all.1 _ _ _ reads, alters, all.2 _ _ _ _ _ alters⟩

end VirtualCatalog
