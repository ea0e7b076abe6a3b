import VirtualCatalog.Bridge.Commit
import VirtualCatalog.Machine.Basic

/-!
# The owner's calls on a live bridge

`vcatbridge_set_policy`, `vcatbridge_configure_policy` and `vcatbridge_set_context` each look the
bridge up, check their arguments against the source without a lock, and take the lock again to
write.  Any number of such calls is in flight at once, so each is two labels of `ownerMachine`: one
that checks and one that writes.

* `Store` : the grant book, the context, the calls in flight and, for the properties to refer to,
  every grant set that was installed and every context there was.
* `Closed` : every predicate that is installed or about to be uses only names of the context;
  `Closed.next` says that every label keeps it.
-/

namespace VirtualCatalog

/-- `BridgeContext`. -/
structure BridgeContext where
  values : ContextValues := ∅
  finalized : Bool := false

/-- A call that was checked and waits to write. -/
inductive PendingCall where
  | policy (commit : PolicyCommit)
  | context (name : String) (value : Value)

/-- What the owner's calls and the guest's statements share. -/
structure Store where
  book : GrantBook
  context : BridgeContext
  pending : List PendingCall := []
  /-- Every grant set that was installed, newest first. -/
  installed : List GrantTables
  /-- Every context there was, newest first. -/
  contexts : List ContextValues

/-- A context-dependent predicate of a grant. -/
structure ContextDependent where
  schema : String
  table : String
  clause : String
  predicate : Expr

/-- `CollectDependents`. -/
def collectDependents (T : GrantTables) (name : String) : List ContextDependent :=
  T.entries.flatMap fun e => crossingVerbs.flatMap fun v =>
    let dependent (clause : String) (p : Option Expr) : List ContextDependent :=
      (p.filter fun p => (contextNames p).contains name).toList.map (⟨e.1, e.2.1, clause, ·⟩)
    dependent "USING" (e.2.2.usingPredicates v) ++
      dependent "WITH CHECK" (e.2.2.checkPredicates v)

/-- The checks of `SetContextFunc` before it writes. -/
def checkContext (view : SourceView) (s : Store) (name : String) (value : Value) :
    Except BridgeError Unit := do
  throwIf (name = "") ⟨.io, "vcatbridge: the context name cannot be empty"⟩
  throwIf (value matches .null) ⟨.io, "vcatbridge: context '" ++ name ++ "' cannot be NULL"⟩
  throwIf s.context.finalized ⟨.permission, "vcatbridge: the context of the bridge is finalized"⟩
  (collectDependents s.book.tables name).forM fun d =>
    match view.entry (tableKey d.schema d.table) with
    | none => .ok ()
    | some entry => probePredicate entry d.predicate (s.context.values.insert name value)
        (view.print d.predicate) d.clause

/-- What an owner does; `view` is what the source answers at that moment. -/
inductive OwnerLabel where
  /-- `SetPolicy` up to its commit. -/
  | setPolicy (view : SourceView) (edit : PolicyEdit)
  /-- `ConfigurePolicy` up to its commit. -/
  | configurePolicy (view : SourceView) (config : PolicyConfig)
  /-- `SetContextFunc` up to its write. -/
  | setContext (view : SourceView) (name : String) (value : Value)
  /-- The write of the `i`-th call in flight, or its refusal. -/
  | finish (i : Nat)
  | finalizePolicy
  | finalizeContext

namespace Store

/-- The write of a call. -/
def finishCall (bridgeId : String) (s : Store) : PendingCall → Store
  | .policy commit =>
    match commitPolicy bridgeId s.book commit with
    | .ok book => { s with book := book, installed := book.tables :: s.installed }
    | .error _ => s
  | .context name value =>
    if s.context.finalized then s
    else
      let values := s.context.values.insert name value
      { s with context := { s.context with values := values }, contexts := values :: s.contexts }

/-- One label; a call that is refused leaves the store as it is, so it has no label. -/
def next (bridgeId : String) (s : Store) : OwnerLabel → Option Store
  | .setPolicy view edit =>
    -- the check of `LookUpOpenBridge`; `CommitPolicy` makes it once more
    if s.book.policyFinalized then none
    else
      match resolveEdit view s.context.values edit with
      | .ok commit => some { s with pending := s.pending ++ [.policy commit] }
      | .error _ => none
  | .configurePolicy view config =>
    if s.book.policyFinalized then none
    else
      match resolvePolicy view s.context.values config with
      | .ok state => some { s with pending := s.pending ++ [.policy (.configure state)] }
      | .error _ => none
  | .setContext view name value =>
    match checkContext view s name value with
    | .ok _ => some { s with pending := s.pending ++ [.context name value] }
    | .error _ => none
  | .finish i =>
    match s.pending[i]? with
    | some call => some (finishCall bridgeId { s with pending := s.pending.eraseIdx i } call)
    | none => none
  | .finalizePolicy => some { s with book := { s.book with policyFinalized := true } }
  | .finalizeContext => some { s with context := { s.context with finalized := true } }

end Store

/-- The owner's side of a bridge. -/
def ownerMachine (bridgeId : String) : Machine Store OwnerLabel := ⟨Store.next bridgeId⟩

/-- What a label does to the book and the context. -/
inductive Store.Effect (bridgeId : String) (s s' : Store) : Prop
  | quiet (hbook : s'.book = { s.book with policyFinalized := s'.book.policyFinalized })
      (hi : s'.installed = s.installed) (hv : s'.context.values = s.context.values)
      (hc : s'.contexts = s.contexts)
  | policy (commit : PolicyCommit) (hbook : commitPolicy bridgeId s.book commit = .ok s'.book)
      (hi : s'.installed = s'.book.tables :: s.installed)
      (hv : s'.context.values = s.context.values) (hc : s'.contexts = s.contexts)
  | context (hbook : s'.book = s.book) (hi : s'.installed = s.installed)
      (hc : s'.contexts = s'.context.values :: s.contexts)

/-- Every label has one of these effects. -/
theorem Store.next_effect {bridgeId : String} {s s' : Store} {l : OwnerLabel}
    (h : s.next bridgeId l = some s') : s.Effect bridgeId s' := by
  cases l with
  | finish i =>
    rw [Store.next] at h
    split at h
    next call _ =>
      cases h
      cases call with
      | policy commit =>
        cases hb : commitPolicy bridgeId s.book commit with
        | ok book =>
          simp only [finishCall, hb]
          exact .policy commit hb rfl rfl rfl
        | error e =>
          simp only [finishCall, hb]
          exact .quiet rfl rfl rfl rfl
      | context name value =>
        rw [Store.finishCall]
        split_ifs
        · exact .quiet rfl rfl rfl rfl
        · exact .context rfl rfl rfl
    next => cases h
  | setPolicy | configurePolicy =>
    rw [Store.next] at h
    split_ifs at h
    split at h
    · cases h; exact .quiet rfl rfl rfl rfl
    · cases h
  | setContext =>
    rw [Store.next] at h
    split at h
    · cases h; exact .quiet rfl rfl rfl rfl
    · cases h
  | finalizePolicy | finalizeContext => cases h; exact .quiet rfl rfl rfl rfl

/-! ### Predicates use only names of the context -/

/-- Every name of the first context is one of the second. -/
def ContextGrows (values values' : ContextValues) : Prop :=
  ∀ n, values.contains n = true → values'.contains n = true

theorem FilledBy.mono {values values' : ContextValues} {e : Expr} (h : FilledBy values e)
    (hg : ContextGrows values values') : FilledBy values' e := fun n hn => hg n (h n hn)

/-- Every predicate of the grant uses only names of the context. -/
def ClosedGrant (values : ContextValues) (g : SourceGrant) : Prop :=
  ∀ v, (∀ e ∈ g.usingPredicates v, FilledBy values e) ∧ ∀ e ∈ g.checkPredicates v, FilledBy values e

/-- Every predicate of the grants uses only names of the context. -/
def ClosedGrants (values : ContextValues) (T : GrantTables) : Prop :=
  ∀ k g, T.grantAt k = some g → ClosedGrant values g

/-- Every predicate of the resolved edit uses only names of the context. -/
def ClosedCommit (values : ContextValues) : PolicyCommit → Prop
  | .verb _ _ resolved _ =>
    (∀ e ∈ resolved.usingPredicate, FilledBy values e) ∧
      ∀ e ∈ resolved.checkPredicate, FilledBy values e
  | .configure state => ClosedGrants values state.tables
  | _ => True

/-- Every predicate that is installed or about to be uses only names of the context. -/
structure Closed (s : Store) : Prop where
  book : ClosedGrants s.context.values s.book.tables
  pending : ∀ c, .policy c ∈ s.pending → ClosedCommit s.context.values c

section

variable {values values' : ContextValues} {g : SourceGrant} {T : GrantTables}

theorem closedGrant_default : ClosedGrant values {} := by
  intro v
  exact ⟨fun e he => (by cases he), fun e he => (by cases he)⟩

theorem ClosedGrant.mono (h : ClosedGrant values g) (hg : ContextGrows values values') :
    ClosedGrant values' g :=
  fun v => ⟨fun e he => ((h v).1 e he).mono hg, fun e he => ((h v).2 e he).mono hg⟩

theorem ClosedGrants.mono (h : ClosedGrants values T) (hg : ContextGrows values values') :
    ClosedGrants values' T := fun k g hk => (h k g hk).mono hg

theorem ClosedCommit.mono {c : PolicyCommit} (h : ClosedCommit values c)
    (hg : ContextGrows values values') : ClosedCommit values' c := by
  cases c with
  | verb => exact ⟨fun e he => (h.1 e he).mono hg, fun e he => (h.2 e he).mono hg⟩
  | configure => exact ClosedGrants.mono h hg
  | _ => trivial

theorem ClosedGrant.installVerb {verb : CrossingVerb} {r : ResolvedVerb} (h : ClosedGrant values g)
    (hr : (∀ e ∈ r.usingPredicate, FilledBy values e) ∧
      ∀ e ∈ r.checkPredicate, FilledBy values e) :
    ClosedGrant values (installVerb g verb r) := by
  intro v
  by_cases hv : v = verb
  · subst hv
    simpa [VirtualCatalog.installVerb] using hr
  · simpa [VirtualCatalog.installVerb, hv] using h v

theorem ClosedGrants.set {s t : String} (h : ClosedGrants values T) (hg : ClosedGrant values g) :
    ClosedGrants values (T.set s t g) := by
  intro k g' hk
  rw [GrantTables.grantAt_set] at hk
  split_ifs at hk
  · exact Option.some.inj hk ▸ hg
  · exact h k g' hk

theorem ClosedGrants.revoke {s t : String} (h : ClosedGrants values T) :
    ClosedGrants values (T.revoke s t) := by
  intro k g' hk
  rw [GrantTables.grantAt_revoke] at hk
  split_ifs at hk
  exact h k g' hk

theorem closedGrants_empty : ClosedGrants values ∅ := by
  intro k g hk
  cases hk

end

/-! ### What resolving and committing keep -/

/-- A property that every step of a fold keeps holds of its result. -/
theorem foldlM_keeps {α β ε : Type} {P : β → Prop} {f : β → α → Except ε β} {l : List α} {b b' : β}
    (h : l.foldlM f b = .ok b') (hb : P b) (step : ∀ b a b', P b → f b a = .ok b' → P b') :
    P b' := by
  induction l generalizing b with
  | nil => cases h; exact hb
  | cons a l ih =>
    obtain ⟨b₁, h₁, h⟩ := bind_eq_ok h
    exact ih h (step _ _ _ hb h₁)

theorem guarded_eq_ok {α : Type} {path : String} {x : Except BridgeError α} {a : α}
    (h : guarded path x = .ok a) : x = .ok a := by
  cases x with
  | error e => cases h
  | ok b => exact h

theorem resolveEdit_closed {view : SourceView} {values : ContextValues} {edit : PolicyEdit}
    {c : PolicyCommit} (h : resolveEdit view values edit = .ok c) : ClosedCommit values c := by
  cases edit with
  | verb target verb value =>
    rw [resolveEdit] at h
    split_ifs at h
    · obtain ⟨entry, -, h⟩ := bind_eq_ok h
      obtain ⟨r, hr, h⟩ := bind_eq_ok h
      cases h
      exact resolveVerb_filledBy hr
    · cases h
      exact ⟨fun e he => (by cases he), fun e he => (by cases he)⟩
  | create target granted =>
    rw [resolveEdit] at h
    split_ifs at h
    · obtain ⟨_, -, h⟩ := bind_eq_ok h
      cases h; trivial
    · cases h; trivial
  | primaryKey target key =>
    cases key with
    | none => cases h; trivial
    | some key =>
      obtain ⟨entry, -, h⟩ := bind_eq_ok h
      obtain ⟨r, -, h⟩ := bind_eq_ok h
      cases h; trivial
  | foreignKeys target op parents =>
    rw [resolveEdit] at h
    split_ifs at h
    · obtain ⟨entry, -, h⟩ := bind_eq_ok h
      obtain ⟨r, -, h⟩ := bind_eq_ok h
      cases h; trivial
    · cases h; trivial
  | whitelist op functions => cases h; trivial

theorem resolveTable_closed {view : SourceView} {values : ContextValues} {table : PolicyTable}
    {entry : SourceEntry} {g : SourceGrant}
    (h : resolveTable view values table entry = .ok g) : ClosedGrant values g := by
  obtain ⟨g₁, h₁, h⟩ := bind_eq_ok h
  have hc : ClosedGrant values g₁ := by
    refine foldlM_keeps h₁ closedGrant_default fun g v g' hg hs => ?_
    split_ifs at hs
    · obtain ⟨r, hr, hs⟩ := bind_eq_ok (guarded_eq_ok hs)
      cases hs
      exact hg.installVerb (resolveVerb_filledBy hr)
    · cases hs; exact hg
  obtain ⟨g₂, h₂, h⟩ := bind_eq_ok h
  have hc₂ : ClosedGrant values g₂ := by
    rw [resolveTableKey] at h₂
    split at h₂
    · cases h₂; exact hc
    · obtain ⟨r, -, h₂⟩ := bind_eq_ok (guarded_eq_ok h₂)
      cases h₂; exact hc
  refine foldlM_keeps h hc₂ fun g p g' hg hs => ?_
  obtain ⟨_, -, hs⟩ := bind_eq_ok (guarded_eq_ok hs)
  cases hs; exact hg

theorem resolvePolicy_closed {view : SourceView} {values : ContextValues} {config : PolicyConfig}
    {state : PolicyState} (h : resolvePolicy view values config = .ok state) :
    ClosedGrants values state.tables := by
  obtain ⟨schemas, -, h⟩ := bind_eq_ok h
  obtain ⟨tables, ht, h⟩ := bind_eq_ok h
  cases h
  refine foldlM_keeps ht closedGrants_empty fun T table T' hT hs => ?_
  obtain ⟨entry, -, hs⟩ := bind_eq_ok hs
  obtain ⟨g, hg, hs⟩ := bind_eq_ok hs
  cases hs
  exact hT.set (resolveTable_closed hg)

theorem applyPending_closed {values : ContextValues} {state : PolicyState} {c : PolicyCommit}
    (hs : ClosedGrants values state.tables) (hc : ClosedCommit values c) :
    ClosedGrants values (c.applyPending state).tables := by
  have found : ∀ t : PolicyName, ClosedGrant values
      ((state.tables.findGrant t.schema t.name).getD {}) := by
    intro t
    cases hf : state.tables.findGrant t.schema t.name with
    | none => exact closedGrant_default
    | some g => exact hs (tableKey t.schema t.name) g hf
  cases c with
  | verb target v resolved facts =>
    have hg := found target
    rw [PolicyCommit.applyPending]
    split_ifs
    · exact hs.set (ClosedGrant.installVerb (fun v => hg v) hc)
    · split
      · exact hs
      next g hf =>
        rw [hf] at hg
        dsimp only
        split_ifs
        · exact hs.revoke
        · exact hs.set (ClosedGrant.installVerb hg hc)
  | create schema granted => exact hs
  | primaryKey target resolved =>
    rw [PolicyCommit.applyPending]
    split_ifs
    · exact hs
    · exact hs.set (found target)
  | foreignKeys target op parents =>
    rw [PolicyCommit.applyPending]
    split_ifs
    · exact hs
    · exact hs.set (found target)
  | whitelist op names => exact hs
  | configure newState => exact hc

theorem apply_closed {bridgeId : String} {values : ContextValues} {state state' : PolicyState}
    {c : PolicyCommit} (h : c.apply bridgeId state = .ok state')
    (hs : ClosedGrants values state.tables) (hc : ClosedCommit values c) :
    ClosedGrants values state'.tables := by
  rw [PolicyCommit.eq_applyPending h]
  exact applyPending_closed hs hc

namespace Closed

variable {bridgeId : String} {s s' : Store}

theorem contextGrows_insert (values : ContextValues) (n : String) (v : Value) :
    ContextGrows values (values.insert n v) := by
  intro n' h
  rw [CIMap.contains_insert, h, Bool.or_true]

theorem closedGrants_copy {values : ContextValues} {T : GrantTables} (h : ClosedGrants values T) :
    ClosedGrants values T.copyTables := by
  intro k g hk
  rw [GrantTables.grantAt_copyTables] at hk
  exact h k g hk

/-- The write of a checked call. -/
theorem finishCall {call : PendingCall} (h : Closed s)
    (hc : ∀ c, call = .policy c → ClosedCommit s.context.values c) :
    Closed (s.finishCall bridgeId call) ∧
      ContextGrows s.context.values (s.finishCall bridgeId call).context.values := by
  cases call with
  | policy commit =>
    rw [Store.finishCall]
    split
    next book hb =>
      obtain ⟨-, -, state, ha, -, rfl⟩ := commitPolicy_ok_iff.1 hb
      exact ⟨⟨apply_closed ha (closedGrants_copy h.book) (hc _ rfl), h.pending⟩, fun _ hn => hn⟩
    next => exact ⟨h, fun _ hn => hn⟩
  | context name value =>
    rw [Store.finishCall]
    split_ifs
    · exact ⟨h, fun _ hn => hn⟩
    · have hg := contextGrows_insert s.context.values name value
      exact ⟨⟨h.book.mono hg, fun c hm => (h.pending c hm).mono hg⟩, hg⟩

/-- A checked call is added. -/
theorem push {call : PendingCall} (h : Closed s)
    (hc : ∀ c, call = .policy c → ClosedCommit s.context.values c) :
    Closed { s with pending := s.pending ++ [call] } := by
  refine ⟨h.book, fun c hm => ?_⟩
  rcases List.mem_append.1 hm with hm | hm
  · exact h.pending c hm
  · exact hc c (List.mem_singleton.1 hm).symm

/-- **Every label keeps the predicates closed, and the context only grows.** -/
theorem next {l : OwnerLabel} (h : Closed s) (hs : s.next bridgeId l = some s') :
    Closed s' ∧ ContextGrows s.context.values s'.context.values := by
  cases l with
  | setPolicy view edit =>
    rw [Store.next] at hs
    split_ifs at hs
    split at hs
    next commit hr =>
      cases hs
      refine ⟨h.push fun c hc => ?_, fun _ hn => hn⟩
      cases hc
      exact resolveEdit_closed hr
    next => cases hs
  | configurePolicy view config =>
    rw [Store.next] at hs
    split_ifs at hs
    split at hs
    next state hr =>
      cases hs
      refine ⟨h.push fun c hc => ?_, fun _ hn => hn⟩
      cases hc
      exact resolvePolicy_closed hr
    next => cases hs
  | setContext view name value =>
    rw [Store.next] at hs
    split at hs
    · cases hs
      exact ⟨h.push fun c hc => (by cases hc), fun _ hn => hn⟩
    · cases hs
  | finish i =>
    rw [Store.next] at hs
    split at hs
    next call hi =>
      cases hs
      have he : Closed { s with pending := s.pending.eraseIdx i } :=
        ⟨h.book, fun c hm => h.pending c (List.mem_of_mem_eraseIdx hm)⟩
      refine he.finishCall fun c hc => h.pending c (hc ▸ List.mem_of_getElem? hi)
    next => cases hs
  | finalizePolicy => cases hs; exact ⟨⟨h.book, h.pending⟩, fun _ hn => hn⟩
  | finalizeContext => cases hs; exact ⟨⟨h.book, h.pending⟩, fun _ hn => hn⟩

end Closed

end VirtualCatalog
