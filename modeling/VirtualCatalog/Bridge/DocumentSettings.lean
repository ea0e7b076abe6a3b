import VirtualCatalog.Bridge.Settings

/-!
# A document and its settings, one by one

On a pending bridge without a policy, the settings of a document issued one by one, in any order
that keeps what a function list adds before what it removes, end in the policy that the document
installs.

* `DocumentResolves` : a document as it resolves, and the policy that it resolves to.
* `settings_resolve` : its settings resolve too, each by itself.
* `replay_settings` : their edits in any order make the same policy.
* `Registry.document_eq_settings` : the calls, from the document and the arguments to the registry.
-/

namespace VirtualCatalog

/-- The key of a table. -/
def PolicyTable.tableKey (table : PolicyTable) : TableKey :=
  VirtualCatalog.tableKey table.name.schema table.name.name

theorem PolicyTable.grantAt_set (table : PolicyTable) (T : GrantTables) (g : SourceGrant)
    (k : TableKey) : (T.set table.name.schema table.name.name g).grantAt k =
      if k = table.tableKey then some g else T.grantAt k := GrantTables.grantAt_set ..

/-! ### What a document resolves to -/

/-- The functions of a document. -/
def configFunctions (config : PolicyConfig) : FunctionGrants :=
  applyFunctionList (applyFunctionList ⟨config.builtins, ∅, ∅⟩ .add config.add) .remove
    config.remove

/-- A document as it resolves, with the entries of its tables. -/
structure DocumentResolves (view : SourceView) (values : ContextValues) (config : PolicyConfig)
    (resolved : List (PolicyTable × SourceEntry)) (state : PolicyState) : Prop where
  tables : resolved.map Prod.fst = config.tables
  resolves : ∀ p ∈ resolved, TableResolves view values p.1 p.2
  distinct : (resolved.map fun p => p.1.tableKey).Nodup
  grants : ∀ p ∈ resolved, state.tables.grantAt p.1.tableKey = some (tableGrant view values p.1 p.2)
  others : ∀ k, (∀ p ∈ resolved, p.1.tableKey ≠ k) → state.tables.grantAt k = none
  schemas : ∀ s ∈ config.createSchemas, throwUnlessSchemaExists view s.1 = .ok ()
  createSchemas : ∀ n,
    state.createSchemas.contains n = config.createSchemas.any fun s => ciEq n s.1.schema
  functions : state.functions = configFunctions config

section

variable {view : SourceView} {values : ContextValues} {config : PolicyConfig}

theorem foldlM_createSchemas {ss : List (PolicyName × String)} {acc acc' : CISet}
    (h : ss.foldlM (fun (acc : CISet) s => guarded s.2 do
      throwUnlessSchemaExists view s.1
      return acc.add s.1.schema) acc = .ok acc') :
    (∀ s ∈ ss, throwUnlessSchemaExists view s.1 = .ok ()) ∧
      ∀ n, acc'.contains n = ((ss.any fun s => ciEq n s.1.schema) || acc.contains n) := by
  induction ss generalizing acc with
  | nil =>
    cases h
    exact ⟨by simp, fun n => rfl⟩
  | cons s ss ih =>
    rw [List.foldlM_cons] at h
    obtain ⟨acc₁, h₁, h⟩ := bind_eq_ok h
    obtain ⟨⟨⟩, hs, h₁⟩ := bind_eq_ok (guarded_eq_ok h₁)
    cases h₁
    obtain ⟨hall, hc⟩ := ih h
    refine ⟨List.forall_mem_cons.2 ⟨hs, hall⟩, fun n => ?_⟩
    rw [hc, CISet.add, CIMap.contains_insert, List.any_cons, ciEq]
    cases ss.any fun s => ciEq n s.1.schema <;> simp

/-- The loop over the tables of a document. -/
theorem foldlM_tables {tables : List PolicyTable} {T T' : GrantTables}
    (h : tables.foldlM (fun (acc : GrantTables) table => do
      let entry ← guarded table.path do
        throwIf (acc.findGrant table.name.schema table.name.name).isSome
          ⟨.io, "vcatbridge: '" ++ table.name.schema ++ "." ++ table.name.name ++
            "' is configured twice"⟩
        grantableEntry view table.name
      return acc.set table.name.schema table.name.name
        (← resolveTable view values table entry)) T = .ok T') :
    ∃ resolved : List (PolicyTable × SourceEntry), resolved.map Prod.fst = tables ∧
      (∀ p ∈ resolved, TableResolves view values p.1 p.2) ∧
      (resolved.map fun p => p.1.tableKey).Nodup ∧
      (∀ p ∈ resolved, T.grantAt p.1.tableKey = none) ∧
      (∀ p ∈ resolved, T'.grantAt p.1.tableKey = some (tableGrant view values p.1 p.2)) ∧
      ∀ k, (∀ p ∈ resolved, p.1.tableKey ≠ k) → T'.grantAt k = T.grantAt k := by
  induction tables generalizing T with
  | nil =>
    cases h
    exact ⟨[], rfl, by simp, by simp, by simp, by simp, fun k _ => rfl⟩
  | cons table tables ih =>
    rw [List.foldlM_cons] at h
    obtain ⟨T₁, h₁, h⟩ := bind_eq_ok h
    obtain ⟨entry, he, h₁⟩ := bind_eq_ok h₁
    obtain ⟨g, hg, h₁⟩ := bind_eq_ok h₁
    cases h₁
    obtain ⟨_, htwice, hfound⟩ := bind_eq_ok (guarded_eq_ok he)
    obtain ⟨hres, rfl⟩ := resolveTable_ok hfound hg
    obtain ⟨resolved, rfl, hall, hnd, hfresh, hgrants, hothers⟩ := ih h
    -- the table was not configured before, and is not again
    have hnone : T.grantAt table.tableKey = none := by
      change T.findGrant table.name.schema table.name.name = none
      rw [throwIf_eq_ok] at htwice
      simpa using htwice
    have hne : ∀ p ∈ resolved, p.1.tableKey ≠ table.tableKey := by
      intro p hp heq
      have := hfresh p hp
      rw [table.grantAt_set, if_pos heq] at this
      cases this
    have kept : ∀ k, k ≠ table.tableKey →
        (T.set table.name.schema table.name.name (tableGrant view values table entry)).grantAt k =
          T.grantAt k := by
      intro k hk
      rw [table.grantAt_set, if_neg hk]
    refine ⟨(table, entry) :: resolved, rfl, List.forall_mem_cons.2 ⟨hres, hall⟩, ?_,
      List.forall_mem_cons.2 ⟨hnone, fun p hp => ?_⟩,
      List.forall_mem_cons.2 ⟨?_, hgrants⟩, fun k hk => ?_⟩
    · refine List.nodup_cons.2 ⟨fun hmem => ?_, hnd⟩
      obtain ⟨p, hp, heq⟩ := List.mem_map.1 hmem
      exact hne p hp heq
    · rw [← kept _ (hne p hp), hfresh p hp]
    · rw [hothers _ hne, table.grantAt_set, if_pos rfl]
    · obtain ⟨hk₁, hk⟩ := List.forall_mem_cons.1 hk
      rw [hothers k hk, kept k (Ne.symm hk₁)]

/-- **A document that resolves does so setting by setting**, and its tables are distinct. -/
theorem resolvePolicy_ok {state : PolicyState} (h : resolvePolicy view values config = .ok state) :
    ∃ resolved, DocumentResolves view values config resolved state := by
  obtain ⟨createSchemas, hc, h⟩ := bind_eq_ok h
  obtain ⟨T, ht, h⟩ := bind_eq_ok h
  cases h
  obtain ⟨hschemas, hcontains⟩ := foldlM_createSchemas hc
  obtain ⟨resolved, hmap, hres, hnd, -, hgrants, hothers⟩ := foldlM_tables ht
  exact ⟨resolved, hmap, hres, hnd, hgrants, hothers, hschemas,
    fun n => by rw [hcontains n, CIMap.contains_empty, Bool.or_false], rfl⟩

end

/-! ### What the settings of a document resolve to -/

/-- What the function lists of a document resolve to. -/
def functionCommits (how : Issuing) (config : PolicyConfig) : List PolicyCommit :=
  if config.builtins then
    (if config.add ≠ [] ∨ how.emptyAdd = true then [.whitelist .add config.add] else []) ++
      if config.remove ≠ [] ∨ how.emptyRemove = true then [.whitelist .remove config.remove] else []
  else [.whitelist .set config.add]

/-- What the settings of a document resolve to. -/
def documentCommits (view : SourceView) (values : ContextValues) (how : Issuing)
    (config : PolicyConfig) (resolved : List (PolicyTable × SourceEntry)) : List PolicyCommit :=
  config.createSchemas.map (fun s => .create s.1.schema true) ++
    (resolved.flatMap (fun p => tableCommits view values how p.1 p.2) ++ functionCommits how config)

section

variable {view : SourceView} {values : ContextValues} {config : PolicyConfig} {how : Issuing}
  {resolved : List (PolicyTable × SourceEntry)} {state : PolicyState}

/-- **The settings of a document resolve, each by itself.** -/
theorem settings_resolve (how : Issuing) (h : DocumentResolves view values config resolved state) :
    List.Forall₂ (fun e c => resolveEdit view values e = .ok c) (settings how config)
      (documentCommits view values how config resolved) := by
  rw [settings, documentCommits]
  refine List.rel_append ?_ (List.rel_append ?_ ?_)
  · rw [List.forall₂_map_left_iff, List.forall₂_map_right_iff, List.forall₂_same]
    intro s hs
    rw [resolveEdit, if_pos rfl, h.schemas s hs]
    rfl
  · rw [← h.tables]
    have hres := h.resolves
    clear h
    induction resolved with
    | nil => exact .nil
    | cons p resolved ih =>
      obtain ⟨hp, hrest⟩ := List.forall_mem_cons.1 hres
      exact List.rel_append hp.edits (ih hrest)
  · rw [functionSettings, functionCommits]
    split_ifs <;> repeat first | exact .nil | refine .cons rfl ?_

/-! ### The edits of a document, table by table -/

theorem target_tableCommits {table : PolicyTable} {entry : SourceEntry} {c : PolicyCommit}
    (hc : c ∈ tableCommits view values how table entry) :
    c.target = some table.tableKey ∧ c.single = true ∧ c.revokesCreate = false ∧
      c.createdSchema = none ∧ c.touchesTables = true := by
  rcases mem_tableCommits.1 hc with ⟨v, -, rfl⟩ | ⟨key, -, rfl⟩ | ⟨-, rfl⟩ <;>
    exact ⟨rfl, rfl, rfl, rfl, rfl⟩

theorem mem_functionCommits {c : PolicyCommit} (hc : c ∈ functionCommits how config) :
    ∃ op names, c = .whitelist op names := by
  rw [functionCommits] at hc
  split_ifs at hc <;> simp at hc <;> grind

theorem mem_documentCommits {c : PolicyCommit}
    (hc : c ∈ documentCommits view values how config resolved) :
    (∃ s ∈ config.createSchemas, c = .create s.1.schema true) ∨
      (∃ p ∈ resolved, c ∈ tableCommits view values how p.1 p.2) ∨
        c ∈ functionCommits how config := by
  rw [documentCommits, List.mem_append, List.mem_append, List.mem_map, List.mem_flatMap] at hc
  rcases hc with ⟨s, hs, rfl⟩ | h | h
  · exact .inl ⟨s, hs, rfl⟩
  · exact .inr (.inl h)
  · exact .inr (.inr h)

theorem single_documentCommits {c : PolicyCommit}
    (hc : c ∈ documentCommits view values how config resolved) :
    c.single = true ∧ c.revokesCreate = false := by
  rcases mem_documentCommits hc with ⟨s, -, rfl⟩ | ⟨p, -, hp⟩ | hf
  · exact ⟨rfl, rfl⟩
  · exact ⟨(target_tableCommits hp).2.1, (target_tableCommits hp).2.2.1⟩
  · obtain ⟨op, names, rfl⟩ := mem_functionCommits hf
    exact ⟨rfl, rfl⟩

/-- Of lists joined by key, the one of a key is left. -/
theorem flatMap_filter_key {α β κ : Type} [DecidableEq κ] (key : α → κ) {target : β → Option κ}
    {f : α → List β} {as : List α} (hf : ∀ a ∈ as, ∀ b ∈ f a, target b = some (key a))
    (hn : (as.map key).Nodup) {a : α} (ha : a ∈ as) :
    (as.flatMap f).filter (fun b => target b = some (key a)) = f a := by
  induction as with
  | nil => cases ha
  | cons a' as ih =>
    obtain ⟨hf', hfs⟩ := List.forall_mem_cons.1 hf
    rw [List.map_cons, List.nodup_cons] at hn
    rw [List.flatMap_cons, List.filter_append]
    rcases List.mem_cons.1 ha with rfl | ha
    · have own : (f a).filter (fun b => target b = some (key a)) = f a :=
        List.filter_eq_self.2 fun b hb => by simp [hf' b hb]
      have other : (as.flatMap f).filter (fun b => target b = some (key a)) = [] := by
        refine List.filter_eq_nil_iff.2 fun b hb => ?_
        obtain ⟨a', ha', hb⟩ := List.mem_flatMap.1 hb
        rw [hfs a' ha' b hb]
        simp only [Option.some.injEq, decide_eq_true_eq]
        exact fun heq => hn.1 (List.mem_map.2 ⟨a', ha', heq⟩)
      rw [own, other, List.append_nil]
    · have other : (f a').filter (fun b => target b = some (key a)) = [] := by
        refine List.filter_eq_nil_iff.2 fun b hb => ?_
        rw [hf' b hb]
        simp only [Option.some.injEq, decide_eq_true_eq]
        exact fun heq => hn.1 (List.mem_map.2 ⟨a, ha, heq.symm⟩)
      rw [other, List.nil_append, ih hfs hn.2 ha]

/-- The edits of a document that are about a table of it. -/
theorem filter_documentCommits (hn : (resolved.map fun p => p.1.tableKey).Nodup)
    {p : PolicyTable × SourceEntry} (hp : p ∈ resolved) :
    (documentCommits view values how config resolved).filter
        (fun c => c.target = some p.1.tableKey) =
      tableCommits view values how p.1 p.2 := by
  have creates : (config.createSchemas.map fun s => PolicyCommit.create s.1.schema true).filter
      (fun c => c.target = some p.1.tableKey) = [] := by
    refine List.filter_eq_nil_iff.2 fun c hc => ?_
    obtain ⟨s, -, rfl⟩ := List.mem_map.1 hc
    simp [PolicyCommit.target]
  have functions : (functionCommits how config).filter
      (fun c => c.target = some p.1.tableKey) = [] := by
    refine List.filter_eq_nil_iff.2 fun c hc => ?_
    obtain ⟨op, names, rfl⟩ := mem_functionCommits hc
    simp [PolicyCommit.target]
  rw [documentCommits, List.filter_append, List.filter_append, creates, functions, List.nil_append,
    List.append_nil]
  exact flatMap_filter_key (fun q : PolicyTable × SourceEntry => q.1.tableKey)
    (fun q _ c hc => (target_tableCommits hc).1) hn hp

/-- An edit of a document is about one of its tables, or about none. -/
theorem target_documentCommits {c : PolicyCommit} {k : TableKey}
    (hc : c ∈ documentCommits view values how config resolved) (hk : c.target = some k) :
    ∃ p ∈ resolved, p.1.tableKey = k := by
  rcases mem_documentCommits hc with ⟨s, -, rfl⟩ | ⟨p, hp, hcp⟩ | hf
  · cases hk
  · rw [(target_tableCommits hcp).1] at hk
    exact ⟨p, hp, Option.some.inj hk⟩
  · obtain ⟨op, names, rfl⟩ := mem_functionCommits hf
    cases hk

/-! ### The functions of a document -/

/-- The same functions, names compared up to case. -/
structure FunctionGrants.Equiv (f g : FunctionGrants) : Prop where
  builtins : f.builtins = g.builtins
  allowed : ∀ n, f.allowed.contains n = g.allowed.contains n
  disallowed : ∀ n, f.disallowed.contains n = g.disallowed.contains n

namespace FunctionGrants.Equiv

variable {f g : FunctionGrants}

@[refl] theorem refl (f : FunctionGrants) : f.Equiv f := ⟨rfl, fun _ => rfl, fun _ => rfl⟩

/-- A list does the same to the same functions. -/
theorem applyFunctionList (h : f.Equiv g) (op : PolicyListOp) (names : List String) :
    (applyFunctionList f op names).Equiv (VirtualCatalog.applyFunctionList g op names) := by
  rw [VirtualCatalog.applyFunctionList, VirtualCatalog.applyFunctionList]
  have start : (if op = .set then (⟨false, ∅, ∅⟩ : FunctionGrants) else f).Equiv
      (if op = .set then ⟨false, ∅, ∅⟩ else g) := by
    split_ifs
    · rfl
    · exact h
  revert start
  generalize (if op = .set then (⟨false, ∅, ∅⟩ : FunctionGrants) else f) = f'
  generalize (if op = .set then (⟨false, ∅, ∅⟩ : FunctionGrants) else g) = g'
  intro start
  induction names generalizing f' g' with
  | nil => exact start
  | cons n names ih =>
    rw [List.foldl_cons, List.foldl_cons]
    refine ih _ _ ?_
    split_ifs
    · exact ⟨start.builtins, fun m => by simp [CIMap.contains_erase, start.allowed],
        fun m => by simp [CISet.add, CIMap.contains_insert, start.disallowed]⟩
    · exact ⟨start.builtins, fun m => by simp [CISet.add, CIMap.contains_insert, start.allowed],
        fun m => by simp [CIMap.contains_erase, start.disallowed]⟩

end FunctionGrants.Equiv

/-- **The function lists make the functions of the document**, what they add first. -/
theorem foldl_functionCommits {f : FunctionGrants} (hf : f.Equiv {})
    (hexact : config.builtins = false → config.remove = []) :
    ((functionCommits how config).foldl PolicyCommit.onFunctions f).Equiv
      (configFunctions config) := by
  rw [functionCommits, configFunctions]
  cases hb : config.builtins with
  | false =>
    rw [if_neg Bool.false_ne_true, hexact hb]
    -- an exact list starts over, whatever was there
    exact .refl (applyFunctionList f .set config.add)
  | true =>
    rw [if_pos rfl, List.foldl_append]
    have step : ∀ (op : PolicyListOp) (names : List String) (asked : Bool) {f g : FunctionGrants},
        op ≠ .set → f.Equiv g →
        ((if names ≠ [] ∨ asked = true then [PolicyCommit.whitelist op names] else []).foldl
          PolicyCommit.onFunctions f).Equiv (applyFunctionList g op names) := by
      intro op names asked f g hop h
      split_ifs with hn
      · exact h.applyFunctionList op names
      · have hnil : names = [] := by
          by_contra hne
          exact hn (.inl hne)
        rw [hnil, applyFunctionList, if_neg hop]
        exact h
    exact step .remove config.remove how.emptyRemove (by decide)
      (step .add config.add how.emptyAdd (by decide) hf)

/-- The edit is about the functions. -/
def PolicyCommit.ofFunctions : PolicyCommit → Bool
  | .whitelist _ _ => true
  | _ => false

theorem foldl_onFunctions_filter (commits : List PolicyCommit) (f : FunctionGrants) :
    commits.foldl PolicyCommit.onFunctions f =
      (commits.filter PolicyCommit.ofFunctions).foldl PolicyCommit.onFunctions f := by
  induction commits generalizing f with
  | nil => rfl
  | cons c commits ih =>
    rw [List.foldl_cons, List.filter_cons]
    cases c <;> exact ih _

/-- In any order that keeps the function lists in theirs, they are what is about the functions. -/
theorem filter_ofFunctions {commits : List PolicyCommit}
    (hperm : commits.Perm (documentCommits view values how config resolved))
    (hsub : (functionCommits how config).Sublist commits) :
    commits.filter PolicyCommit.ofFunctions = functionCommits how config := by
  have all : (functionCommits how config).filter PolicyCommit.ofFunctions =
      functionCommits how config := by
    refine List.filter_eq_self.2 fun c hc => ?_
    obtain ⟨op, names, rfl⟩ := mem_functionCommits hc
    rfl
  have others : (documentCommits view values how config resolved).filter PolicyCommit.ofFunctions =
      functionCommits how config := by
    rw [documentCommits, List.filter_append, List.filter_append, all]
    have creates : (config.createSchemas.map fun s => PolicyCommit.create s.1.schema true).filter
        PolicyCommit.ofFunctions = [] := by
      refine List.filter_eq_nil_iff.2 fun c hc => ?_
      obtain ⟨s, -, rfl⟩ := List.mem_map.1 hc
      simp [PolicyCommit.ofFunctions]
    have tables : (resolved.flatMap fun p => tableCommits view values how p.1 p.2).filter
        PolicyCommit.ofFunctions = [] := by
      refine List.filter_eq_nil_iff.2 fun c hc => ?_
      obtain ⟨p, -, hc⟩ := List.mem_flatMap.1 hc
      rcases mem_tableCommits.1 hc with ⟨v, -, rfl⟩ | ⟨key, -, rfl⟩ | ⟨-, rfl⟩ <;>
        simp [PolicyCommit.ofFunctions]
    rw [creates, tables, List.nil_append, List.nil_append]
  have sub := hsub.filter PolicyCommit.ofFunctions
  rw [all] at sub
  refine (sub.eq_of_length ?_).symm
  rw [← others]
  exact ((hperm.filter _).length_eq).symm

/-! ### The settings in any order -/

/-- **The edits of a document make its policy in any order** that keeps the function lists in
theirs. -/
theorem replay_settings (h : DocumentResolves view values config resolved state)
    (hstated : config.Stated) {start : PolicyState} (hstart : start.Equiv {})
    {commits : List PolicyCommit}
    (hperm : commits.Perm (documentCommits view values how config resolved))
    (hsub : (functionCommits how config).Sublist commits) :
    (replay start commits).Equiv state := by
  have single : ∀ c ∈ commits, c.single = true :=
    fun c hc => (single_documentCommits (hperm.mem_iff.1 hc)).1
  have revokes : ∀ c ∈ commits, c.revokesCreate = false :=
    fun c hc => (single_documentCommits (hperm.mem_iff.1 hc)).2
  have tables : ∀ k, (replay start commits).tables.grantAt k = state.tables.grantAt k := by
    intro k
    have hnone : start.tables.grantAt k = none := hstart.tables k
    rw [grantAt_replay single, hnone]
    have hfilter := hperm.filter fun c => c.target = some k
    by_cases hk : ∃ p ∈ resolved, p.1.tableKey = k
    -- the edits of one table commute, so that their order is the document's
    · obtain ⟨p, hp, rfl⟩ := hk
      rw [filter_documentCommits h.distinct hp] at hfilter
      have hverb : grantedVerbs p.1 ≠ [] := by
        have hmem : p.1 ∈ config.tables := h.tables ▸ List.mem_map.2 ⟨p, hp, rfl⟩
        obtain ⟨v, hv⟩ := (hstated.tables _ hmem).grants
        exact List.ne_nil_of_mem (List.mem_filter.2 ⟨mem_crossingVerbs v, hv⟩)
      rw [h.grants p hp, hfilter.foldl_eq' (fun c hc c' hc' g => tableCommits_commute
        (h.resolves p hp) (hfilter.mem_iff.1 hc) (hfilter.mem_iff.1 hc') g),
        foldl_tableCommits (h.resolves p hp) hverb]
    -- no edit is for a table that is not in the document
    · have hnil : commits.filter (fun c => c.target = some k) = [] := by
        refine List.filter_eq_nil_iff.2 fun c hc hck => hk ?_
        exact target_documentCommits (hperm.mem_iff.1 hc) (by simpa using hck)
      rw [hnil, h.others k fun p hp hpk => hk ⟨p, hp, hpk⟩]
      rfl
  have creates : ∀ n,
      (replay start commits).createSchemas.contains n = state.createSchemas.contains n := by
    intro n
    have hnone : start.createSchemas.contains n = false := hstart.createSchemas n
    rw [createSchemas_replay single _ revokes, h.createSchemas, hnone, Bool.or_false,
      Bool.eq_iff_iff, List.any_eq_true, List.any_eq_true]
    constructor
    · rintro ⟨c, hc, hn⟩
      rcases mem_documentCommits (hperm.mem_iff.1 hc) with ⟨s, hs, rfl⟩ | ⟨p, -, hp⟩ | hf
      · exact ⟨s, hs, hn⟩
      · rw [(target_tableCommits hp).2.2.2.1] at hn
        cases hn
      · obtain ⟨op, names, rfl⟩ := mem_functionCommits hf
        cases hn
    · rintro ⟨s, hs, hn⟩
      refine ⟨.create s.1.schema true, hperm.mem_iff.2 ?_, hn⟩
      exact List.mem_append_left _ (List.mem_map.2 ⟨s, hs, rfl⟩)
  -- the function lists are the one part where the order counts
  have functions : (replay start commits).functions.Equiv state.functions := by
    rw [functions_replay single, foldl_onFunctions_filter, filter_ofFunctions hperm hsub,
      h.functions]
    exact foldl_functionCommits ⟨hstart.builtins, hstart.allowed, hstart.disallowed⟩ hstated.exact
  exact ⟨tables, creates, functions.builtins, functions.allowed, functions.disallowed⟩

end

/-! ### Calls on a pending bridge -/

namespace Registry

/-- The entry that a call of its owner finds waiting for a target. -/
structure Waiting (s : Registry) (db : Nat) (id : String) (p : PendingSource) : Prop where
  pending : s.purge.pending id = some p
  owned : p.sourceDb = db
  isOpen : p.policyFinalized = false

section

variable {s : Registry} {db : Nat} {id : String} {view : SourceView} {p : PendingSource}

theorem purge_pending_iff :
    s.purge.pending id = some p ↔ s.pending id = some p ∧ s.expired p = false := by
  change (s.pending id).filter (fun p => !s.expired p) = some p ↔ _
  rw [Option.filter_eq_some_iff]
  simp

theorem lookupOpenGrants_waiting (h : s.Waiting db id p) :
    s.lookupOpenGrants id db =
      (.ok ⟨p.registration, p.source, p.state.tables, p.policyFinalized, .inl (s.touched p)⟩,
        s.purge.setPending id (s.touched p)) := by
  have found : s.lookupGrantTarget id db =
      (.ok ⟨p.registration, p.source, p.state.tables, p.policyFinalized, .inl (s.touched p)⟩,
        s.purge.setPending id (s.touched p)) := by
    rw [lookupGrantTarget, h.pending]
    exact if_neg (not_not.2 h.owned)
  rw [lookupOpenGrants, found]
  dsimp only
  rw [h.isOpen]
  rfl

/-- An entry that is open is found by its owner only. -/
theorem waiting_of_lookup (hp : s.purge.pending id = some p)
    (h : ∃ target, (s.lookupOpenGrants id db).1 = .ok target) : s.Waiting db id p := by
  obtain ⟨target, h⟩ := h
  change (do
    let target ← (s.lookupGrantTarget id db).1
    throwIf target.policyFinalized _
    return target) = _ at h
  rw [lookupGrantTarget, hp] at h
  dsimp only at h
  split_ifs at h with hdb
  · cases h
  · obtain ⟨found, hfound, h⟩ := bind_eq_ok h
    cases hfound
    obtain ⟨_, hf, -⟩ := bind_eq_ok h
    rw [throwIf_eq_ok] at hf
    exact ⟨hp, not_not.1 hdb, by simpa using hf⟩

/-- A touched entry has not waited. -/
theorem Waiting.touch (h : s.Waiting db id p) (state : PolicyState) (t : Registry)
    (hnow : t.now = s.now) (hclosed : t.closed = s.closed)
    (hpending : t.pending id = some { s.touched p with state := state }) :
    t.Waiting db id { s.touched p with state := state } := by
  refine ⟨purge_pending_iff.2 ⟨hpending, ?_⟩, h.owned, h.isOpen⟩
  have hfresh := (purge_pending_iff.1 h.pending).2
  rw [expired, Bool.or_eq_false_iff] at hfresh ⊢
  refine ⟨?_, ?_⟩
  · rw [hnow]
    simp [touched]
  · rw [hclosed]
    exact hfresh.2

/-- **A call that resolves commits its edit.** -/
theorem request_waiting (h : s.Waiting db id p) (view : SourceView)
    (request : PolicyRequest) {commit : PolicyCommit}
    (hr : request.resolve view (s.contexts p.registration).values = .ok commit) :
    ∃ t, s.request db id view request = (.ok (), t) ∧
      t.Waiting db id { s.touched p with state := commit.applyPending (copyPolicy p.state) } ∧
      t.contexts = s.contexts ∧ t.now = s.now ∧ t.closed = s.closed := by
  have again : (s.purge.setPending id (s.touched p)).Waiting db id (s.touched p) :=
    h.touch p.state _ rfl rfl (by rw [pending_setPending, if_pos rfl]; rfl)
  have hr' : request.resolve view
      ((s.purge.setPending id (s.touched p)).contexts p.registration).values = .ok commit := hr
  rw [Registry.request, lookupOpenGrants_waiting h]
  dsimp only
  rw [hr']
  dsimp only
  rw [commitCall, lookupOpenGrants_waiting again]
  refine ⟨_, rfl, ?_, rfl, rfl, rfl⟩
  refine h.touch _ _ rfl rfl ?_
  change ((s.purge.setPending id (s.touched p)).purge.setPending id _ |>.setPending id _).pending id =
    _
  rw [pending_setPending, if_pos rfl]
  rfl

theorem request_ok (hp : s.purge.pending id = some p) {request : PolicyRequest} {t : Registry}
    (h : s.request db id view request = (.ok (), t)) :
    s.Waiting db id p ∧
      ∃ commit, request.resolve view (s.contexts p.registration).values = .ok commit := by
  have hw : s.Waiting db id p := by
    refine waiting_of_lookup hp ?_
    rw [Registry.request] at h
    cases hl : s.lookupOpenGrants id db with
    | mk found s₁ =>
      rw [hl] at h
      cases found with
      | error e => cases h
      | ok target => exact ⟨target, rfl⟩
  refine ⟨hw, ?_⟩
  rw [Registry.request, lookupOpenGrants_waiting hw] at h
  dsimp only at h
  cases hr : request.resolve view (s.contexts p.registration).values with
  | ok commit => exact ⟨commit, rfl⟩
  | error e =>
    have hr' : request.resolve view
        ((s.purge.setPending id (s.touched p)).contexts p.registration).values = .error e := hr
    rw [hr'] at h
    cases h

end

/-- Calls of `vcatbridge_set_policy` one after another, each some time after the one before; the
first that fails ends them. -/
def setPolicies (s : Registry) (db : Nat) (id : String) (view : SourceView) :
    List (Nat × SettingCall) → Except BridgeError Unit × Registry
  | [] => (.ok (), s)
  | (elapsed, call) :: calls =>
    match { s with now := s.now + elapsed }.setPolicy db id view call with
    | (.error e, s) => (.error e, s)
    | (.ok _, s) => s.setPolicies db id view calls

/-- No call comes so late that the entry has expired; it is idle since the last one. -/
def InTime (idle : Nat) : List (Nat × SettingCall) → Prop
  | [] => True
  | call :: calls =>
    (idle + call.1) / ticksPerSecond ≤ pendingSourceTtlSeconds ∧ InTime 0 calls

/-- **Calls whose edits all resolve commit them one after another.** -/
theorem setPolicies_waiting {s : Registry} {db : Nat} {id : String} {view : SourceView}
    {p : PendingSource} {values : ContextValues} (h : s.Waiting db id p)
    (hvalues : (s.contexts p.registration).values = values) {calls : List (Nat × SettingCall)}
    {commits : List PolicyCommit}
    (hcalls : List.Forall₂ (fun call commit => ∃ edit, call.2.edit = .ok edit ∧
      resolveEdit view values edit = .ok commit) calls commits)
    (htime : InTime (s.now - p.lastTouched) calls) {state : PolicyState}
    (hstate : p.state.Same state) :
    ∃ t q, s.setPolicies db id view calls = (.ok (), t) ∧ t.pending id = some q ∧
      q.state.Same (replay state commits) := by
  induction hcalls generalizing s p state with
  | nil => exact ⟨s, p, rfl, (purge_pending_iff.1 h.pending).1, hstate⟩
  | @cons call commit calls commits hcall _ ih =>
    obtain ⟨edit, hedit, hresolve⟩ := hcall
    obtain ⟨hnow, hrest⟩ := htime
    have later : ({ s with now := s.now + call.1 } : Registry).Waiting db id p := by
      obtain ⟨hp, hfresh⟩ := purge_pending_iff.1 h.pending
      refine ⟨purge_pending_iff.2 ⟨hp, ?_⟩, h.owned, h.isOpen⟩
      rw [expired, Bool.or_eq_false_iff] at hfresh ⊢
      refine ⟨?_, hfresh.2⟩
      have hidle : s.now + call.1 - p.lastTouched ≤ s.now - p.lastTouched + call.1 := by omega
      simpa using (Nat.div_le_div_right hidle).trans hnow
    obtain ⟨t, ht, hw, hctx, htnow, -⟩ :=
      request_waiting later view (.set edit) (hvalues ▸ hresolve)
    have hset : ({ s with now := s.now + call.1 } : Registry).setPolicy db id view call.2 =
        (.ok (), t) := by
      rw [setPolicy, hedit]
      dsimp only
      rw [ht]
      rfl
    have hsame : (commit.applyPending (copyPolicy p.state)).Same (commit.applyPending state) :=
      ((PolicyState.Same.copy p.state).trans hstate).applyPending commit
    have hidle : t.now - (s.now + call.1) = 0 := by
      rw [htnow]
      exact Nat.sub_self _
    obtain ⟨u, q, hu, hq, hsame'⟩ := ih hw (by rw [hctx]; exact hvalues)
      (show InTime (t.now - (s.now + call.1)) calls from hidle ▸ hrest) hsame
    refine ⟨u, q, ?_, hq, hsame'⟩
    rw [setPolicies, hset]
    exact hu

end Registry

/-! ### The main result -/

/-- The settings of a document that states its policy can all be written. -/
theorem settings_stated {config : PolicyConfig} (h : config.Stated) {how : Issuing}
    {edit : PolicyEdit} (hedit : edit ∈ settings how config) : edit.Stated := by
  rw [settings, List.mem_append, List.mem_append, List.mem_map, List.mem_flatMap] at hedit
  rcases hedit with ⟨s, hs, rfl⟩ | ⟨table, ht, hedit⟩ | hedit
  · exact ⟨h.createSchemas s hs, rfl⟩
  · have hstated := h.tables table ht
    rw [tableSettings, List.mem_append, List.mem_append, List.mem_map] at hedit
    rcases hedit with ⟨v, hv, rfl⟩ | hedit | hedit
    · have hg : (table.verbs v).granted = true := (List.mem_filter.1 hv).2
      refine ⟨hstated.name, ?_, hstated.verbs v hg⟩
      rintro rfl
      rw [hstated.create] at hg
      cases hg
    · rw [Option.mem_toList, Option.map_eq_some_iff] at hedit
      obtain ⟨key, hk, rfl⟩ := hedit
      refine ⟨hstated.name, ?_⟩
      rintro k ⟨⟩
      exact hstated.key key hk
    · split_ifs at hedit
      · rw [List.mem_singleton.1 hedit]
        exact ⟨hstated.name, hstated.parents⟩
      · cases hedit
  · rw [functionSettings] at hedit
    split_ifs at hedit <;> simp only [List.mem_append, List.mem_singleton, List.not_mem_nil,
      or_false, false_or] at hedit
    · rcases hedit with rfl | rfl
      · exact h.add
      · exact h.remove
    · rw [hedit]
      exact h.add
    · rw [hedit]
      exact h.remove
    · rw [hedit]
      exact h.add

theorem PolicyState.Equiv.trans {state state' state'' : PolicyState} (h : state.Equiv state')
    (h' : state'.Equiv state'') : state.Equiv state'' where
  tables k := (h.tables k).trans (h'.tables k)
  createSchemas n := (h.createSchemas n).trans (h'.createSchemas n)
  builtins := h.builtins.trans h'.builtins
  allowed n := (h.allowed n).trans (h'.allowed n)
  disallowed n := (h.disallowed n).trans (h'.disallowed n)

theorem PolicyState.Same.equiv {state state' : PolicyState} (h : state.Same state') :
    state.Equiv state' where
  tables k := congrFun h.tables k
  createSchemas n := by rw [h.createSchemas]
  builtins := by rw [h.functions]
  allowed n := by rw [h.functions]
  disallowed n := by rw [h.functions]

/-- **A document equals its settings, one by one.**  Every setting of a document that
`configure_policy` accepts on a pending bridge without a policy can be written as a call of
`set_policy`; and however the settings are written, in any order that keeps the function lists in
theirs, the calls succeed one after another and end in the policy that the document installs. -/
theorem Registry.document_eq_settings {s s₁ : Registry} {db : Nat} {id : String} {view : SourceView}
    {document : Json} {config : PolicyConfig} {p : PendingSource}
    (hp : s.purge.pending id = some p) (hempty : p.state.Equiv {})
    (hparse : parsePolicyJson document = .ok config)
    (hconfigure : s.configurePolicy db id view document = (.ok (), s₁)) (how : Issuing) :
    (∀ edit ∈ settings how config, edit.call.edit = .ok edit) ∧
      ∀ (calls : List (Nat × SettingCall)) (edits : List PolicyEdit),
        calls.map (fun call => call.2.edit) = edits.map .ok → edits.Perm (settings how config) →
        (functionSettings how config).Sublist edits → InTime (s.now - p.lastTouched) calls →
        ∃ s₂ p₁ p₂, s.setPolicies db id view calls = (.ok (), s₂) ∧ s₁.pending id = some p₁ ∧
          s₂.pending id = some p₂ ∧ p₂.state.Equiv p₁.state := by
  have hstated := parsePolicyJson_stated hparse
  refine ⟨fun edit hedit => (settings_stated hstated hedit).call,
    fun calls edits hcalls hperm hsub htime => ?_⟩
  -- the document resolves, so its settings do
  rw [configurePolicy, hparse] at hconfigure
  dsimp only at hconfigure
  obtain ⟨hw, commit, hresolve⟩ := request_ok hp hconfigure
  obtain ⟨state, hstate, rfl⟩ : ∃ state,
      resolvePolicy view (s.contexts p.registration).values config = .ok state ∧
        commit = .configure state := by
    simp only [PolicyRequest.resolve, Functor.map, Except.map] at hresolve
    split at hresolve
    · cases hresolve
    next state h =>
      cases hresolve
      exact ⟨state, h, rfl⟩
  obtain ⟨resolved, hres⟩ := resolvePolicy_ok hstate
  obtain ⟨hall, hmap⟩ := resolvedEdits (settings_resolve how hres)
  obtain ⟨t, ht, hwt, -, -, -⟩ := request_waiting hw view _ hresolve
  obtain rfl : s₁ = t := congrArg Prod.snd (hconfigure.symm.trans ht)
  -- so do the calls, whose edits make the same policy
  have hforall : List.Forall₂ (fun call commit => ∃ edit, call.2.edit = .ok edit ∧
      resolveEdit view (s.contexts p.registration).values edit = .ok commit) calls
      (edits.map (resolvedEdit view (s.contexts p.registration).values)) := by
    have hedits : ∀ e ∈ edits, e ∈ settings how config := fun e he => hperm.mem_iff.1 he
    clear hperm hsub htime
    induction calls generalizing edits with
    | nil =>
      cases edits with
      | nil => exact .nil
      | cons e edits => cases hcalls
    | cons call calls ih =>
      cases edits with
      | nil => cases hcalls
      | cons e edits =>
        obtain ⟨hc, hcs⟩ := List.cons.inj hcalls
        obtain ⟨he, hes⟩ := List.forall_mem_cons.1 hedits
        exact .cons ⟨e, hc, hall e he⟩ (ih edits hcs hes)
  obtain ⟨s₂, p₂, h₂, hp₂, hsame⟩ := setPolicies_waiting hw rfl hforall htime (.refl p.state)
  refine ⟨s₂, _, p₂, h₂, (purge_pending_iff.1 hwt.pending).1, hp₂, hsame.equiv.trans ?_⟩
  have hfunctions : (functionSettings how config).map
      (resolvedEdit view (s.contexts p.registration).values) = functionCommits how config := by
    rw [functionSettings, functionCommits]
    split_ifs <;> rfl
  exact replay_settings hres hstated hempty (hmap ▸ hperm.map _) (hfunctions ▸ hsub.map _)

namespace Registry

namespace Sample

/-- A source with one table. -/
def people : SourceView where
  catalog := "source"
  parse _ := .ok [.constant (.boolean true)]
  print _ := ""
  entry k := if k = tableKey "main" "people" then
    some { columns := ["id", "name"], probe := fun _ => .ok ["BOOLEAN"] } else none
  hasSchema f := decide (f = fold "main")
  keyQuery _ := .ok []
  verifyQuery _ := .ok false

/-- A policy with settings of every kind but a foreign key. -/
def document : Json := .object
  [("policy_version", .number (.integer 1)),
    ("schemas", .object [("main", .object [("create", .bool true)])]),
    ("tables", .object [("main.people", .object
      [("primary_key", .array [.string "id"]), ("select", .bool true)])]),
    ("functions", .array [.string "lower"])]

def config : PolicyConfig := (parsePolicyJson document).toOption.getD {}

/-- The owner registers a source. -/
def registered : Registry := after [.register 0 "b" (.ok ⟨0, "first"⟩) (some "token") ""]

/-- Every list is added to, and none that is empty is issued. -/
def issuing : Issuing where
  op _ := .add
  op_ne _ := by decide
  emptyParents _ := false
  emptyAdd := false
  emptyRemove := false

/-- The settings backwards, a second after one another. -/
def calls : List (Nat × SettingCall) :=
  (settings issuing config).reverse.map fun edit => (ticksPerSecond, edit.call)

end Sample

/-- The settings of a document, backwards. -/
theorem document_eq_settings_reverse : ∃ s₂ p₁ p₂,
    Sample.registered.setPolicies 0 "b" Sample.people Sample.calls = (.ok (), s₂) ∧
      (Sample.registered.configurePolicy 0 "b" Sample.people Sample.document).2.pending "b" =
        some p₁ ∧ s₂.pending "b" = some p₂ ∧ p₂.state.Equiv p₁.state := by
  have hpending : Sample.registered.purge.pending "b" = some
      { registration := 0, sourceDb := 0, token := "token", source := ⟨0, "first"⟩,
        lastTouched := 0 } := rfl
  have hparse : parsePolicyJson Sample.document = .ok Sample.config := rfl
  have hconfigure : Sample.registered.configurePolicy 0 "b" Sample.people Sample.document =
      (.ok (), (Sample.registered.configurePolicy 0 "b" Sample.people Sample.document).2) := rfl
  obtain ⟨hcall, h⟩ := document_eq_settings hpending
    ⟨fun _ => rfl, fun _ => rfl, rfl, fun _ => rfl, fun _ => rfl⟩ hparse hconfigure Sample.issuing
  refine h Sample.calls (settings Sample.issuing Sample.config).reverse ?_
    (List.reverse_perm _) ?_ ?_
  · rw [Sample.calls, List.map_map]
    exact List.map_congr_left fun edit hedit => hcall edit (List.mem_reverse.1 hedit)
  · have hone : functionSettings Sample.issuing Sample.config = [.whitelist .set ["lower"]] := rfl
    rw [hone, List.singleton_sublist, List.mem_reverse, settings, hone]
    simp
  · exact ⟨by decide, by decide, by decide, by decide, trivial⟩

end Registry

end VirtualCatalog
