import VirtualCatalog.Provider.Refresh

/-!
# Making the schemas of a provider

`EnsureProviderSchemas` creates a schema for each one the listed names name, and notes that it has
done so for this epoch before it begins.  Any number of calls run at once, some of them inside a
list call of their own thread, and transactions create schemas themselves.

* `EnsureNames` : the state behind the catalog's lock, with the note.
* `SchemaSlot` : a schema of the catalog: absent, created by an open transaction, or there for all.
* `ensuring` : the machine, one label for each step a call takes between two locks, and for each
  answer of the schema set.
* `Ensuring.Provided` : after a call has returned outside a list call, every listed schema is there,
  or an open transaction has created it, or the next call tries again.
* `Careful` : no step leaves a listed schema missing under an up-to-date note.
* `provided` : under this condition the schemas are provided.
-/

namespace VirtualCatalog

namespace Provider

/-! ### The state -/

/-- `Names`, and which epoch the schemas were made for. -/
structure EnsureNames extends Names where
  ensuredEpoch : Nat := 0
  schemasEnsured : Bool := false

namespace EnsureNames

/-- The schemas that are listed. -/
def schemas (c : EnsureNames) : List String := c.listed.tables.toList.map Prod.fst

/-- The second section of `RefreshProviderNames`. -/
def stored (c : EnsureNames) (p version : Nat) (tables : CIMap (List String)) : EnsureNames :=
  { c with toNames := c.toNames.store p version { tables } }

/-- `SetProvider`. -/
def replaced (c : EnsureNames) (p : Option Nat) : EnsureNames :=
  { c with toNames := c.toNames.setProvider p, schemasEnsured := false }

/-- The schemas were made for this epoch. -/
def noted (c : EnsureNames) : Bool := c.schemasEnsured && c.ensuredEpoch == c.epoch

/-- Note that they are. -/
def note (c : EnsureNames) : EnsureNames :=
  { c with ensuredEpoch := c.epoch, schemasEnsured := true }

end EnsureNames

/-- A schema of the catalog. -/
inductive SchemaSlot where
  | absent
  /-- Created by this open transaction, which alone sees it. -/
  | pending (tx : Nat)
  /-- Created by the system transaction, or committed. -/
  | there
deriving DecidableEq

/-- Where a call is. -/
inductive EnsureStage where
  /-- Before the first section of the refresh. -/
  | checking
  /-- Before the list call to a provider, whose version was read. -/
  | calling (provider version : Nat)
  | listing (provider version : Nat)
  /-- Before the second section of the refresh. -/
  | storing (provider version : Nat) (tables : CIMap (List String))
  /-- Before the section of `EnsureProviderSchemas`. -/
  | ensuring
  /-- Before `GetEntry` for the first of these schemas. -/
  | looking (todo : List String)
  /-- Before `CreateSchema`. -/
  | creating (schema : String) (rest : List String)

/-- The schemas that a call has yet to make. -/
def EnsureStage.todo : EnsureStage → List String
  | .looking todo => todo
  | .creating schema rest => schema :: rest
  | _ => []

/-- A call of `EnsureProviderSchemas`, or of `TablesForSchema`, which only refreshes. -/
structure EnsureCall where
  ensures : Bool
  /-- `ListingGuard::Active()`: it runs inside a list call of its own thread. -/
  inListing : Bool
  /-- The transaction of the caller. -/
  caller : Nat
  stage : EnsureStage

/-- The calls with what they share. -/
structure Ensuring where
  names : EnsureNames := {}
  /-- `ProviderInfo::version`. -/
  version : Nat → Nat := fun _ => 0
  /-- The number of the next provider. -/
  nextProvider : Nat := 0
  /-- The schema set, by folded name. -/
  schemas : List Char → SchemaSlot := fun _ => .absent
  calls : Nat → Option EnsureCall := fun _ => none
  /-- Ghost: a call has returned outside a list call since the list was stored and the making of
  its schemas was last begun. -/
  answered : Bool := false

/-- How `CreateSchema` ends. -/
inductive CreateOutcome where
  /-- The schema is there, or was already. -/
  | done
  /-- A `TransactionException`, which is swallowed. -/
  | conflict
  /-- Another exception. -/
  | threw

/-- The steps. -/
inductive Ensuring.Label where
  | begin (t : Nat) (ensures inListing : Bool) (caller : Nat)
  /-- A call goes on. -/
  | go (t : Nat)
  /-- The list UDF returns to a call. -/
  | listed (t : Nat) (r : Except String String)
  /-- `GetEntry` returns. -/
  | looked (t : Nat) (found : Bool)
  /-- `CreateSchema` returns. -/
  | created (t : Nat) (outcome : CreateOutcome)
  /-- A transaction creates a schema by SQL. -/
  | sqlCreate (tx : Nat) (schema : String)
  | commit (tx : Nat)
  | rollback (tx : Nat)
  | invalidate (p : Nat)
  | register
  | unregister

/-- The call at its next stage. -/
def EnsureCall.at (c : EnsureCall) (stage : EnsureStage) : EnsureCall := { c with stage }

/-- The call after the refresh. -/
def EnsureCall.refreshed (c : EnsureCall) : Option EnsureCall :=
  if c.ensures then some (c.at .ensuring) else none

namespace Ensuring

/-- The state after the call `t` took a step. -/
def moved (σ : Ensuring) (t : Nat) (c : Option EnsureCall) : Ensuring :=
  { σ with calls := Function.update σ.calls t c }

/-- The call `t` returns from `EnsureProviderSchemas`. -/
def returned (σ : Ensuring) (t : Nat) (c : EnsureCall) : Ensuring :=
  { σ.moved t none with answered := σ.answered || !c.inListing }

/-- The second section of `RefreshProviderNames`; only the list of the provider is stored. -/
def store (σ : Ensuring) (p version : Nat) (tables : CIMap (List String)) : Ensuring :=
  { σ with
    names := σ.names.stored p version tables
    answered := if σ.names.provider = some p then false else σ.answered }

/-- The note is made, and the making of the schemas begins. -/
def noted (σ : Ensuring) : Ensuring := { σ with names := σ.names.note, answered := false }

/-- What the call `t` does next, unless it waits for an answer. -/
def advance (σ : Ensuring) (t : Nat) (c : EnsureCall) : Option Ensuring :=
  match c.stage with
  | .checking =>
    match σ.names.toList? σ.version with
    | none => some (σ.moved t c.refreshed)
    | some (p, version) =>
      -- the guard of the thread, as in `RefreshProviderNames`
      if c.inListing then some (σ.moved t c.refreshed)
      else some (σ.moved t (some (c.at (.calling p version))))
  | .calling p version => some (σ.moved t (some (c.at (.listing p version))))
  | .storing p version tables => some ((σ.store p version tables).moved t c.refreshed)
  | .ensuring =>
    -- noted by this call or by another one since the names moved
    if σ.names.noted then some (σ.returned t c)
    -- noted before anything is created
    else if σ.names.schemas.isEmpty then some (σ.noted.returned t c)
    else some (σ.noted.moved t (some (c.at (.looking σ.names.schemas))))
  | .looking [] => some (σ.returned t c)
  | _ => none

/-- The list UDF returned a text, or failed. -/
def listed (σ : Ensuring) (t : Nat) (c : EnsureCall) (r : Except String String) : Option Ensuring :=
  match c.stage with
  | .listing p version =>
    match r.mapError ProviderError.udf >>= refreshProviderNames with
    | .ok tables => some (σ.moved t (some (c.at (.storing p version tables))))
    | .error _ => some (σ.moved t none)
  | _ => none

/-- What `GetEntry` may find: a schema that is there if the caller does not see it yet is not found,
and one that the caller created is. -/
def sees (σ : Ensuring) (c : EnsureCall) (schema : String) (found : Bool) : Bool :=
  match σ.schemas (fold schema) with
  | .absent => !found
  | .pending tx => found == (tx == c.caller)
  | .there => true

/-- `GetEntry` returns. -/
def looked (σ : Ensuring) (t : Nat) (c : EnsureCall) (found : Bool) : Option Ensuring :=
  match c.stage with
  | .looking (schema :: rest) =>
    if σ.sees c schema found then
      if found then some (σ.moved t (some (c.at (.looking rest))))
      else some (σ.moved t (some (c.at (.creating schema rest))))
    else none
  | _ => none

/-- A schema of the set changes. -/
def withSchema (σ : Ensuring) (schema : String) (slot : SchemaSlot) : Ensuring :=
  { σ with schemas := Function.update σ.schemas (fold schema) slot }

/-- The schema was created by an open transaction. -/
def isPending (σ : Ensuring) (schema : String) : Bool :=
  match σ.schemas (fold schema) with
  | .pending _ => true
  | _ => false

/-- `CreateSchema` returns; it conflicts with what an open transaction has created. -/
def created (σ : Ensuring) (t : Nat) (c : EnsureCall) (outcome : CreateOutcome) : Option Ensuring :=
  match c.stage, outcome with
  | .creating schema rest, .done =>
    if σ.isPending schema then none
    else some ((σ.withSchema schema .there).moved t (some (c.at (.looking rest))))
  | .creating _ rest, .conflict => some (σ.moved t (some (c.at (.looking rest))))
  | .creating _ _, .threw => some (σ.moved t none)
  | _, _ => none

/-- The schemas that a transaction created become `slot`. -/
def ended (σ : Ensuring) (tx : Nat) (slot : SchemaSlot) : Ensuring :=
  { σ with schemas := fun f => if σ.schemas f = .pending tx then slot else σ.schemas f }

/-- The provider is replaced. -/
def replaced (σ : Ensuring) (p : Option Nat) : Ensuring :=
  { σ with names := σ.names.replaced p, answered := false }

/-- One step. -/
def next (σ : Ensuring) : Label → Option Ensuring
  | .begin t ensures inListing caller =>
    match σ.calls t with
    | some _ => none
    | none => some (σ.moved t (some { ensures, inListing, caller, stage := .checking }))
  | .go t => (σ.calls t).bind (σ.advance t)
  | .listed t r => (σ.calls t).bind fun c => σ.listed t c r
  | .looked t found => (σ.calls t).bind fun c => σ.looked t c found
  | .created t outcome => (σ.calls t).bind fun c => σ.created t c outcome
  | .sqlCreate tx schema =>
    if σ.schemas (fold schema) = .absent then some (σ.withSchema schema (.pending tx)) else none
  | .commit tx => some (σ.ended tx .there)
  | .rollback tx => some (σ.ended tx .absent)
  | .invalidate p =>
    if p < σ.nextProvider then
      some { σ with version := Function.update σ.version p (σ.version p + 1) }
    else none
  | .register =>
    some { σ.replaced (some σ.nextProvider) with nextProvider := σ.nextProvider + 1 }
  | .unregister => some (σ.replaced none)

/-! ### Schemas that are missed -/

/-- The next call makes no schemas: the note is up to date, and so is the list. -/
structure UpToDate (σ : Ensuring) : Prop where
  noted : σ.names.noted = true
  listed : ∀ p, σ.names.provider = some p → σ.names.namesFilled = true →
    σ.version p = σ.names.listedVersion

/-- The schema is listed. -/
def Lists (σ : Ensuring) (f : List Char) : Prop := ∃ schema ∈ σ.names.schemas, fold schema = f

/-- The schema is listed and absent, and the next call does not make it. -/
structure Missing (σ : Ensuring) (f : List Char) : Prop where
  lists : σ.Lists f
  absent : σ.schemas f = .absent
  upToDate : σ.UpToDate

/-- Once a call has returned outside a list call, each listed schema is there for all, or an open
transaction has created it, or the next call tries again. -/
def Provided (σ : Ensuring) : Prop :=
  σ.answered = true → ∀ f, σ.Lists f →
    σ.schemas f = .there ∨ (∃ tx, σ.schemas f = .pending tx) ∨ ¬σ.UpToDate

/-- Another call than `t` has yet to make the schema. -/
def Making (σ : Ensuring) (t : Nat) (f : List Char) : Prop :=
  ∃ t' c, t' ≠ t ∧ σ.calls t' = some c ∧ ∃ schema ∈ c.stage.todo, fold schema = f

end Ensuring

/-- The machine of the calls. -/
def ensuring : Machine Ensuring Ensuring.Label := ⟨Ensuring.next⟩

/-- What a step that a call takes must not do. -/
def CarefulCall (σ : Ensuring) (t : Nat) (c : EnsureCall) : Prop :=
  match c.stage with
  -- a list with a schema that is not there is stored under a note that stays up to date
  | .storing p version tables => σ.names.provider = some p →
      (σ.store p version tables).UpToDate →
      ∀ f, (σ.store p version tables).Lists f → σ.Lists f ∨ σ.schemas f ≠ .absent
  -- a call returns before another one has made what is missing
  | .ensuring => c.inListing = false → ∀ f, σ.Missing f → ¬σ.Making t f
  | .looking _ => c.inListing = false → ∀ f, σ.Missing f → ¬σ.Making t f
  | _ => True

/-- No step leaves a listed schema missing. -/
def Careful (σ : Ensuring) : Ensuring.Label → Prop
  | .go t => ∀ c, σ.calls t = some c → CarefulCall σ t c
  -- what could not be created is not missing
  | .created t .conflict => ∀ c schema rest, σ.calls t = some c →
      c.stage = .creating schema rest → ¬σ.Missing (fold schema)
  | .created t .threw => ∀ c, σ.calls t = some c → ∀ schema ∈ c.stage.todo,
      ¬σ.Missing (fold schema)
  -- what is taken back is not needed
  | .rollback tx => ∀ f, σ.schemas f = .pending tx → σ.UpToDate → ¬σ.Lists f
  | _ => True

/-! ### What every state satisfies -/

/-- A version that a call has read was there. -/
def EnsureStage.Known (version : Nat → Nat) : EnsureStage → Prop
  | .calling p v => v ≤ version p
  | .listing p v => v ≤ version p
  | .storing p v _ => v ≤ version p
  | _ => True

/-- What a call has yet to make, if there is one. -/
def todoOf (c : Option EnsureCall) : List String := (c.map (·.stage.todo)).getD []

namespace Ensuring

variable {σ σ' : Ensuring} {t : Nat} {c : EnsureCall} {f : List Char}

/-- The invariant. -/
structure Ok (σ : Ensuring) : Prop where
  epoch : σ.names.ensuredEpoch ≤ σ.names.epoch
  version : ∀ p, σ.names.provider = some p → σ.names.namesFilled = true →
    σ.names.listedVersion ≤ σ.version p
  known : ∀ t c, σ.calls t = some c → c.stage.Known σ.version
  /-- A call is about to make what is missing. -/
  making : ∀ f, σ.Missing f → ∃ t, ∃ schema ∈ todoOf (σ.calls t), fold schema = f
  provided : σ.answered = true → ∀ f, ¬σ.Missing f

theorem Ok.toProvided (h : σ.Ok) : σ.Provided := by
  intro hanswered f hlists
  cases hslot : σ.schemas f with
  | there => exact .inl rfl
  | pending tx => exact .inr (.inl ⟨tx, rfl⟩)
  | absent => exact .inr (.inr fun hup => h.provided hanswered f ⟨hlists, hslot, hup⟩)

/-- What is missing depends on the names, the versions and the schemas. -/
theorem Missing.congr (h : σ'.Missing f) (hnames : σ'.names = σ.names)
    (hversion : σ'.version = σ.version) (hschemas : σ'.schemas = σ.schemas) : σ.Missing f := by
  obtain ⟨hlists, habsent, hnoted, hlisted⟩ := h
  unfold Lists at hlists
  rw [hnames] at hlists hnoted
  rw [hschemas] at habsent
  rw [hnames, hversion] at hlisted
  exact ⟨hlists, habsent, hnoted, hlisted⟩

@[simp] theorem moved_calls_self (σ : Ensuring) (t : Nat) (c : Option EnsureCall) :
    (σ.moved t c).calls t = c := Function.update_self ..

theorem moved_calls_of_ne (σ : Ensuring) (c : Option EnsureCall) {t' : Nat} (h : t' ≠ t) :
    (σ.moved t c).calls t' = σ.calls t' := Function.update_of_ne h ..

/-- A call that moves on and leaves nothing undone. -/
theorem Ok.moved (h : σ.Ok) {c' : Option EnsureCall}
    (htodo : ∀ schema ∈ todoOf (σ.calls t), σ.Missing (fold schema) → schema ∈ todoOf c')
    (hknown : ∀ c ∈ c', c.stage.Known σ.version) : (σ.moved t c').Ok where
  epoch := h.epoch
  version := h.version
  known t' c hc := by
    by_cases ht : t' = t
    · subst ht
      rw [moved_calls_self] at hc
      exact hknown c hc
    · rw [moved_calls_of_ne σ c' ht] at hc
      exact h.known t' c hc
  making f hmissing := by
    have hbefore : σ.Missing f := hmissing.congr rfl rfl rfl
    obtain ⟨t', schema, hmem, rfl⟩ := h.making f hbefore
    refine ⟨t', schema, ?_, rfl⟩
    by_cases ht : t' = t
    · subst ht
      rw [moved_calls_self]
      exact htodo schema hmem hbefore
    · rwa [moved_calls_of_ne σ c' ht]
  provided hanswered f hmissing := h.provided hanswered f (hmissing.congr rfl rfl rfl)

/-- A call without anything to make returns, when no other is about to make what is missing. -/
theorem Ok.returned (h : σ.Ok) (hc : σ.calls t = some c) (htodo : c.stage.todo = [])
    (hothers : c.inListing = false → ∀ f, σ.Missing f → ¬σ.Making t f) : (σ.returned t c).Ok := by
  have hnone : todoOf (σ.calls t) = [] := by rw [hc]; exact htodo
  have hmoved : (σ.moved t none).Ok := by
    refine h.moved (fun schema hmem => ?_) nofun
    rw [hnone] at hmem
    cases hmem
  refine ⟨hmoved.epoch, hmoved.version, hmoved.known,
    fun f hmissing => hmoved.making f (hmissing.congr rfl rfl rfl), fun hanswered f hmissing => ?_⟩
  have hbefore : σ.Missing f := hmissing.congr rfl rfl rfl
  rcases Bool.or_eq_true_iff.1 (show (σ.answered || !c.inListing) = true from hanswered) with
    hwas | hout
  · exact h.provided hwas f hbefore
  · obtain ⟨t', schema, hmem, hfold⟩ := h.making f hbefore
    have ht : t' ≠ t := by
      rintro rfl
      rw [hnone] at hmem
      cases hmem
    cases hc' : σ.calls t' with
    | none =>
      rw [hc'] at hmem
      cases hmem
    | some c' =>
      rw [hc'] at hmem
      exact hothers (by simpa using hout) f hbefore ⟨t', c', ht, hc', schema, hmem, hfold⟩

/-! ### Storing a list -/

theorem noted_iff (n : EnsureNames) :
    n.noted = true ↔ n.schemasEnsured = true ∧ n.ensuredEpoch = n.epoch := by
  simp [EnsureNames.noted]

/-- If the note is up to date under a new list of the provider, it was so before. -/
theorem Ok.upToDate_of_store (h : σ.Ok) {p v : Nat} {tables : CIMap (List String)}
    (hp : σ.names.provider = some p) (hup : (σ.store p v tables).UpToDate) : σ.UpToDate := by
  have hnew : (σ.store p v tables).names.toNames = { σ.names.toNames with
      listed := { tables }, listedVersion := v, namesFilled := true
      epoch := if σ.names.namesFilled && v != σ.names.listedVersion
        then σ.names.epoch + 1 else σ.names.epoch } := if_pos hp
  obtain ⟨hnoted, hlisted⟩ := hup
  rw [noted_iff] at hnoted
  obtain ⟨hensured, hepoch⟩ := hnoted
  rw [hnew] at hepoch
  have hensured' : σ.names.schemasEnsured = true := hensured
  have hepoch' : σ.names.ensuredEpoch = if σ.names.namesFilled && v != σ.names.listedVersion
      then σ.names.epoch + 1 else σ.names.epoch := hepoch
  have hle := h.epoch
  by_cases hmoved : (σ.names.namesFilled && v != σ.names.listedVersion) = true
  · rw [if_pos hmoved] at hepoch'
    omega
  · rw [if_neg hmoved] at hepoch'
    refine ⟨(noted_iff _).2 ⟨hensured', hepoch'⟩, fun q hq hfilled => ?_⟩
    have hcurrent := hlisted p (by rw [hnew]; exact hp) (by rw [hnew])
    rw [hnew] at hcurrent
    obtain rfl : p = q := Option.some.inj (hp.symm.trans hq)
    have hsame : v = σ.names.listedVersion := by
      by_contra hne
      exact hmoved (by simp [hfilled, hne])
    exact (show σ.version p = v from hcurrent).trans hsame

theorem Ok.store (h : σ.Ok) {p v : Nat} {tables : CIMap (List String)} (hv : v ≤ σ.version p)
    (hcareful : σ.names.provider = some p → (σ.store p v tables).UpToDate →
      ∀ f, (σ.store p v tables).Lists f → σ.Lists f ∨ σ.schemas f ≠ .absent) :
    (σ.store p v tables).Ok := by
  by_cases hp : σ.names.provider = some p
  · have hnew : (σ.store p v tables).names.toNames = { σ.names.toNames with
        listed := { tables }, listedVersion := v, namesFilled := true
        epoch := if σ.names.namesFilled && v != σ.names.listedVersion
          then σ.names.epoch + 1 else σ.names.epoch } := if_pos hp
    refine ⟨?_, fun q hq _ => ?_, h.known, fun f hmissing => ?_, fun hanswered => ?_⟩
    · exact le_trans h.epoch (Names.store_epoch _ _ _ _)
    · rw [hnew] at hq ⊢
      obtain rfl : p = q := Option.some.inj (hp.symm.trans hq)
      exact hv
    · have hup := h.upToDate_of_store hp hmissing.upToDate
      rcases hcareful hp hmissing.upToDate f hmissing.lists with hlists | hthere
      · exact h.making f ⟨hlists, hmissing.absent, hup⟩
      · exact absurd hmissing.absent hthere
    · rw [show (σ.store p v tables).answered = false from if_pos hp] at hanswered
      cases hanswered
  · have hnames : (σ.store p v tables).names = σ.names := by
      unfold Ensuring.store EnsureNames.stored Names.store
      rw [if_neg hp]
    have hsame : σ.store p v tables = σ := by
      unfold Ensuring.store at hnames ⊢
      rw [if_neg hp]
      dsimp only at hnames
      rw [hnames]
    rwa [hsame]

/-! ### The steps of a call -/

@[simp] theorem todoOf_refreshed (c : EnsureCall) : todoOf c.refreshed = [] := by
  unfold EnsureCall.refreshed
  split_ifs <;> rfl

theorem known_refreshed {version : Nat → Nat} : ∀ c' ∈ c.refreshed, c'.stage.Known version := by
  intro c' hc'
  unfold EnsureCall.refreshed at hc'
  split_ifs at hc'
  · cases hc'
    exact trivial
  · cases hc'

/-- The note is made, and the call begins to make what is listed. -/
theorem Ok.begin (h : σ.Ok) (t : Nat) (c : EnsureCall) :
    (σ.noted.moved t (some (c.at (.looking σ.names.schemas)))).Ok where
  epoch := le_rfl
  version := h.version
  known t' c' hc' := by
    by_cases ht : t' = t
    · subst ht
      rw [moved_calls_self] at hc'
      cases hc'
      exact trivial
    · rw [moved_calls_of_ne _ _ ht] at hc'
      exact h.known t' c' hc'
  making f hmissing := by
    obtain ⟨schema, hmem, hfold⟩ := hmissing.lists
    refine ⟨t, schema, ?_, hfold⟩
    rw [moved_calls_self]
    exact hmem
  provided hanswered := by cases hanswered

theorem not_lists_of_nil (h : σ.names.schemas = []) : ¬σ.Lists f := by
  rintro ⟨schema, hmem, -⟩
  rw [h] at hmem
  cases hmem

/-- Nothing is listed, so nothing is missing. -/
theorem Ok.noted (h : σ.Ok) (hnone : σ.names.schemas = []) : σ.noted.Ok where
  epoch := le_rfl
  version := h.version
  known := h.known
  making f hmissing := absurd hmissing.lists (not_lists_of_nil hnone)
  provided hanswered := by cases hanswered

theorem Ok.advance (h : σ.Ok) (hc : σ.calls t = some c) (hcareful : CarefulCall σ t c)
    (hnext : σ.advance t c = some σ') : σ'.Ok := by
  -- a call in another stage has no schema in its hands
  have hsilent : ∀ {stage} {P : Prop}, c.stage = stage → stage.todo = [] →
      ∀ c', ∀ schema ∈ todoOf (σ.calls t), P → schema ∈ todoOf c' := by
    intro stage P hstage htodo c' schema hmem
    rw [hc, todoOf, Option.map_some, Option.getD_some, hstage, htodo] at hmem
    cases hmem
  unfold Ensuring.advance at hnext
  unfold CarefulCall at hcareful
  cases hstage : c.stage with
  | checking =>
    rw [hstage] at hnext
    dsimp only at hnext
    cases hlist : σ.names.toList? σ.version with
    | none =>
      rw [hlist] at hnext
      obtain rfl := Option.some.inj hnext
      exact h.moved (fun schema hmem => hsilent hstage rfl _ schema hmem) known_refreshed
    | some asked =>
      obtain ⟨p, v⟩ := asked
      rw [hlist] at hnext
      dsimp only at hnext
      split_ifs at hnext
      · obtain rfl := Option.some.inj hnext
        exact h.moved (fun schema hmem => hsilent hstage rfl _ schema hmem) known_refreshed
      · obtain rfl := Option.some.inj hnext
        obtain ⟨-, rfl⟩ := Names.toList?_eq_some hlist
        refine h.moved (fun schema hmem => hsilent hstage rfl _ schema hmem) ?_
        rintro c' ⟨⟩
        exact le_rfl
  | calling p v =>
    have hknown := h.known t c hc
    rw [hstage] at hnext hknown
    obtain rfl := Option.some.inj hnext
    refine h.moved (fun schema hmem => hsilent hstage rfl _ schema hmem) ?_
    rintro c' ⟨⟩
    exact hknown
  | listing p v =>
    rw [hstage] at hnext
    cases hnext
  | storing p v tables =>
    have hknown := h.known t c hc
    rw [hstage] at hnext hknown hcareful
    obtain rfl := Option.some.inj hnext
    exact (h.store hknown hcareful).moved (fun schema hmem => hsilent hstage rfl _ schema hmem)
      known_refreshed
  | ensuring =>
    rw [hstage] at hnext hcareful
    dsimp only at hnext
    split_ifs at hnext with hnoted hempty
    · obtain rfl := Option.some.inj hnext
      exact h.returned hc (by rw [hstage]; rfl) hcareful
    -- an empty list is noted as ensured
    · obtain rfl := Option.some.inj hnext
      have hnone : σ.names.schemas = [] := List.isEmpty_iff.1 hempty
      refine (h.noted hnone).returned hc (by rw [hstage]; rfl) fun _ f hmissing => ?_
      exact absurd hmissing.lists (not_lists_of_nil (σ := σ.noted) hnone)
    · obtain rfl := Option.some.inj hnext
      exact h.begin t c
  | looking todo =>
    rw [hstage] at hnext hcareful
    cases todo with
    | nil =>
      obtain rfl := Option.some.inj hnext
      exact h.returned hc (by rw [hstage]; rfl) hcareful
    | cons schema rest => cases hnext
  | creating schema rest =>
    rw [hstage] at hnext
    cases hnext

theorem Ok.listed (h : σ.Ok) (hc : σ.calls t = some c) {r : Except String String}
    (hnext : σ.listed t c r = some σ') : σ'.Ok := by
  unfold Ensuring.listed at hnext
  cases hstage : c.stage with
  | listing p v =>
    have hknown := h.known t c hc
    rw [hstage] at hnext hknown
    have hsilent : todoOf (σ.calls t) = [] := by rw [hc, todoOf, Option.map_some, hstage]; rfl
    dsimp only at hnext
    split at hnext
    · obtain rfl := Option.some.inj hnext
      refine h.moved (fun schema hmem => ?_) ?_
      · rw [hsilent] at hmem
        cases hmem
      · rintro c' ⟨⟩
        exact hknown
    · obtain rfl := Option.some.inj hnext
      refine h.moved (fun schema hmem => ?_) nofun
      rw [hsilent] at hmem
      cases hmem
  | checking | calling | storing | ensuring | looking | creating =>
    rw [hstage] at hnext
    cases hnext

theorem Ok.looked (h : σ.Ok) (hc : σ.calls t = some c) {found : Bool}
    (hnext : σ.looked t c found = some σ') : σ'.Ok := by
  unfold Ensuring.looked at hnext
  cases hstage : c.stage with
  | looking todo =>
    rw [hstage] at hnext
    cases todo with
    | nil => cases hnext
    | cons schema rest =>
      have htodo : todoOf (σ.calls t) = schema :: rest := by
        rw [hc, todoOf, Option.map_some, hstage]
        rfl
      dsimp only at hnext
      split_ifs at hnext with hsees hfound
      · obtain rfl := Option.some.inj hnext
        refine h.moved (fun schema' hmem hmissing => ?_) ?_
        · rw [htodo] at hmem
          rcases List.mem_cons.1 hmem with rfl | hmem
          · -- an absent schema is not found
            rw [sees, hmissing.absent, hfound] at hsees
            cases hsees
          · exact hmem
        · rintro c' ⟨⟩
          exact trivial
      · obtain rfl := Option.some.inj hnext
        refine h.moved (fun schema' hmem _ => ?_) ?_
        · rw [htodo] at hmem
          exact hmem
        · rintro c' ⟨⟩
          exact trivial
  | checking | calling | storing | ensuring | listing | creating =>
    rw [hstage] at hnext
    cases hnext

/-- The schemas of the set that change are not absent afterwards. -/
theorem Ok.grown (h : σ.Ok) {schemas : List Char → SchemaSlot}
    (hgrown : ∀ f, schemas f = .absent → σ.schemas f = .absent) :
    Ok { σ with schemas } where
  epoch := h.epoch
  version := h.version
  known := h.known
  making f hmissing := h.making f ⟨hmissing.lists, hgrown f hmissing.absent,
    hmissing.upToDate.noted, hmissing.upToDate.listed⟩
  provided hanswered f hmissing := h.provided hanswered f ⟨hmissing.lists,
    hgrown f hmissing.absent, hmissing.upToDate.noted, hmissing.upToDate.listed⟩

theorem Ok.withSchema (h : σ.Ok) (schema : String) {slot : SchemaSlot} (hslot : slot ≠ .absent) :
    (σ.withSchema schema slot).Ok := by
  refine h.grown fun f hf => ?_
  by_cases heq : f = fold schema
  · subst heq
    rw [Function.update_self] at hf
    exact absurd hf hslot
  · rwa [Function.update_of_ne heq] at hf

theorem Ok.created (h : σ.Ok) (hc : σ.calls t = some c) {outcome : CreateOutcome}
    (hconflict : outcome = .conflict → ∀ schema rest, c.stage = .creating schema rest →
      ¬σ.Missing (fold schema))
    (hthrew : outcome = .threw → ∀ schema ∈ c.stage.todo, ¬σ.Missing (fold schema))
    (hnext : σ.created t c outcome = some σ') : σ'.Ok := by
  unfold Ensuring.created at hnext
  cases hstage : c.stage with
  | creating schema rest =>
    have htodo : todoOf (σ.calls t) = schema :: rest := by
      rw [hc, todoOf, Option.map_some, hstage]
      rfl
    rw [hstage] at hnext hconflict hthrew
    cases outcome with
    | done =>
      dsimp only at hnext
      split_ifs at hnext
      obtain rfl := Option.some.inj hnext
      refine (h.withSchema schema (by decide)).moved (fun schema' hmem hmissing => ?_) ?_
      · rw [show (σ.withSchema schema .there).calls t = σ.calls t from rfl, htodo] at hmem
        rcases List.mem_cons.1 hmem with rfl | hmem
        · have habsent : Function.update σ.schemas (fold schema') .there (fold schema') = .absent :=
            hmissing.absent
          rw [Function.update_self] at habsent
          cases habsent
        · exact hmem
      · rintro c' ⟨⟩
        exact trivial
    | conflict =>
      obtain rfl := Option.some.inj hnext
      refine h.moved (fun schema' hmem hmissing => ?_) ?_
      · rw [htodo] at hmem
        rcases List.mem_cons.1 hmem with rfl | hmem
        · exact absurd hmissing (hconflict rfl schema' rest rfl)
        · exact hmem
      · rintro c' ⟨⟩
        exact trivial
    | threw =>
      obtain rfl := Option.some.inj hnext
      refine h.moved (fun schema' hmem hmissing => ?_) nofun
      rw [htodo] at hmem
      exact absurd hmissing (hthrew rfl schema' hmem)
  | checking | calling | storing | ensuring | listing | looking =>
    rw [hstage] at hnext
    cases hnext

/-! ### The other steps -/

theorem Ok.commit (h : σ.Ok) (tx : Nat) : (σ.ended tx .there).Ok := by
  refine h.grown fun f hf => ?_
  split_ifs at hf
  exact hf

/-- What a transaction takes back is not missed. -/
theorem Ok.rollback (h : σ.Ok) {tx : Nat}
    (hcareful : ∀ f, σ.schemas f = .pending tx → σ.UpToDate → ¬σ.Lists f) :
    (σ.ended tx .absent).Ok := by
  have hbefore : ∀ f, (σ.ended tx .absent).Missing f → σ.Missing f := by
    intro f hmissing
    have hup : σ.UpToDate := ⟨hmissing.upToDate.noted, hmissing.upToDate.listed⟩
    refine ⟨hmissing.lists, ?_, hup⟩
    by_contra hthere
    have habsent : (if σ.schemas f = .pending tx then .absent else σ.schemas f) = .absent :=
      hmissing.absent
    by_cases hpending : σ.schemas f = .pending tx
    · exact hcareful f hpending hup hmissing.lists
    · rw [if_neg hpending] at habsent
      exact hthere habsent
  exact ⟨h.epoch, h.version, h.known, fun f hmissing => h.making f (hbefore f hmissing),
    fun hanswered f hmissing => h.provided hanswered f (hbefore f hmissing)⟩

theorem Ok.invalidate (h : σ.Ok) (p : Nat) :
    Ok { σ with version := Function.update σ.version p (σ.version p + 1) } := by
  have hle : ∀ q, σ.version q ≤ Function.update σ.version p (σ.version p + 1) q := by
    intro q
    by_cases hq : q = p
    · subst hq
      rw [Function.update_self]
      omega
    · rw [Function.update_of_ne hq]
  have hbefore : ∀ f, Missing { σ with
      version := Function.update σ.version p (σ.version p + 1) } f → σ.Missing f := by
    intro f hmissing
    refine ⟨hmissing.lists, hmissing.absent, hmissing.upToDate.noted, fun q hq hfilled => ?_⟩
    have hlisted : Function.update σ.version p (σ.version p + 1) q = σ.names.listedVersion :=
      hmissing.upToDate.listed q hq hfilled
    have hversion := h.version q hq hfilled
    by_cases hqp : q = p
    · subst hqp
      rw [Function.update_self] at hlisted
      omega
    · rwa [Function.update_of_ne hqp] at hlisted
  refine ⟨h.epoch, fun q hq hfilled => le_trans (h.version q hq hfilled) (hle q), ?_,
    fun f hmissing => h.making f (hbefore f hmissing),
    fun hanswered f hmissing => h.provided hanswered f (hbefore f hmissing)⟩
  intro t c hc
  have hknown := h.known t c hc
  cases hstage : c.stage with
  | calling q v | listing q v | storing q v =>
    rw [hstage] at hknown
    exact le_trans hknown (hle q)
  | checking | ensuring | looking | creating => exact trivial

theorem Ok.replaced (h : σ.Ok) (p : Option Nat) : (σ.replaced p).Ok where
  epoch := by
    show σ.names.ensuredEpoch ≤ σ.names.epoch + 1
    exact Nat.le_succ_of_le h.epoch
  version _ _ hfilled := by cases hfilled
  known := h.known
  making f hmissing := by cases hmissing.upToDate.noted
  provided hanswered := by cases hanswered

theorem Ok.next (h : σ.Ok) {label : Label} (hcareful : Careful σ label)
    (hnext : σ.next label = some σ') : σ'.Ok := by
  cases label with
  | begin t ensures inListing caller =>
    unfold Ensuring.next at hnext
    dsimp only at hnext
    cases hc : σ.calls t with
    | some c =>
      rw [hc] at hnext
      cases hnext
    | none =>
      rw [hc] at hnext
      obtain rfl := Option.some.inj hnext
      refine h.moved (fun schema hmem => ?_) ?_
      · rw [hc] at hmem
        cases hmem
      · rintro c' ⟨⟩
        exact trivial
  | go t =>
    obtain ⟨c, hc, hnext⟩ := Option.bind_eq_some_iff.1 hnext
    exact h.advance hc (hcareful c hc) hnext
  | listed t r =>
    obtain ⟨c, hc, hnext⟩ := Option.bind_eq_some_iff.1 hnext
    exact h.listed hc hnext
  | looked t found =>
    obtain ⟨c, hc, hnext⟩ := Option.bind_eq_some_iff.1 hnext
    exact h.looked hc hnext
  | created t outcome =>
    obtain ⟨c, hc, hnext⟩ := Option.bind_eq_some_iff.1 hnext
    refine h.created hc ?_ ?_ hnext
    · rintro rfl schema rest hstage
      exact hcareful c schema rest hc hstage
    · rintro rfl
      exact hcareful c hc
  | sqlCreate tx schema =>
    unfold Ensuring.next at hnext
    dsimp only at hnext
    split_ifs at hnext
    obtain rfl := Option.some.inj hnext
    exact h.withSchema schema (by simp)
  | commit tx =>
    obtain rfl := Option.some.inj hnext
    exact h.commit tx
  | rollback tx =>
    obtain rfl := Option.some.inj hnext
    exact h.rollback hcareful
  | invalidate p =>
    unfold Ensuring.next at hnext
    dsimp only at hnext
    split_ifs at hnext
    obtain rfl := Option.some.inj hnext
    exact h.invalidate p
  | register =>
    obtain rfl := Option.some.inj hnext
    -- a new provider has neither listed nor noted anything
    have hreplaced := h.replaced (some σ.nextProvider)
    refine ⟨hreplaced.epoch, hreplaced.version, hreplaced.known, fun f hmissing => ?_,
      fun hanswered => ?_⟩
    · have hnoted := hmissing.upToDate.noted
      cases hnoted
    · cases hanswered
  | unregister =>
    obtain rfl := Option.some.inj hnext
    exact h.replaced none

theorem ok_start : Ok {} where
  epoch := le_rfl
  version _ _ hfilled := by cases hfilled
  known _ _ hc := by cases hc
  making f hmissing := by cases hmissing.upToDate.noted
  provided hanswered := by cases hanswered

end Ensuring

/-- **The schemas of the provider are there**: in every state that careful steps reach, once a call
has returned outside a list call and until a list is stored or the making begins again, each listed
schema is there, or created by a transaction that is still open, or the next call tries again. -/
theorem provided {σ : Ensuring} (h : ensuring.ReachableBy Careful {} σ) : σ.Provided :=
  (h.invariant Ensuring.ok_start fun _ _ _ hok hcareful hnext =>
    hok.next hcareful hnext).toProvided

/-! ### A call inside the first list call -/

namespace Sample

/-- A provider is registered, and a call begins its first list call. -/
def firstList : List Ensuring.Label :=
  [.register, .begin 0 true false 7, .go 0, .go 0]

/-- A call inside it notes that there is nothing to make, the provider is invalidated, and the list
call returns a name. -/
def outdated : List Ensuring.Label :=
  firstList ++ [.begin 1 true true 8, .go 1, .go 1, .invalidate 0, .listed 0 (.ok "s.t"), .go 0,
    .go 0]

/-- A second call lists anew, and creates the schema. -/
def creating : List Ensuring.Label :=
  [.begin 2 true false 9, .go 2, .go 2, .listed 2 (.ok "s.t"), .go 2, .go 2, .looked 2 false,
    .created 2 .done, .go 2]

/-- While it runs, a call inside it notes that there is nothing to make. -/
def reentered : List Ensuring.Label :=
  firstList ++ [.begin 1 true true 8, .go 1, .go 1, .listed 0 (.ok "s.t"), .go 0, .go 0]

/-- The state after some steps. -/
def after (labels : List Ensuring.Label) : Ensuring := (ensuring.exec {} labels).getD {}

end Sample

/-- A note that is not made is not up to date. -/
theorem Ensuring.not_missing_of_not_noted {σ : Ensuring} (h : σ.names.noted = false)
    (f : List Char) : ¬σ.Missing f := by
  intro hmissing
  have hnoted := hmissing.upToDate.noted
  rw [h] at hnoted
  cases hnoted

/-- What a call must not do, of a call that is known. -/
theorem careful_go {σ : Ensuring} {t : Nat} {c : EnsureCall} (hc : σ.calls t = some c)
    (h : CarefulCall σ t c) : Careful σ (.go t) := by
  intro c' hc'
  obtain rfl := Option.some.inj (hc.symm.trans hc')
  exact h

/-- A list that the provider has outdated is not up to date. -/
theorem Ensuring.not_missing_of_outdated {σ : Ensuring} {p : Nat} (hp : σ.names.provider = some p)
    (hfilled : σ.names.namesFilled = true) (hversion : σ.version p ≠ σ.names.listedVersion)
    (f : List Char) : ¬σ.Missing f :=
  fun hmissing => hversion (hmissing.upToDate.listed p hp hfilled)

theorem careful_outdated :
    ensuring.Run Careful {} Sample.outdated (Sample.after Sample.outdated) := by
  refine .cons trivial rfl (.cons trivial rfl (.cons (careful_go rfl trivial) rfl
    (.cons (careful_go rfl trivial) rfl (.cons trivial rfl (.cons (careful_go rfl trivial) rfl
    (.cons (careful_go rfl (fun h => by cases h)) rfl (.cons trivial rfl (.cons trivial rfl
    (.cons (careful_go rfl ?stale) rfl (.cons (careful_go rfl ?outdated) rfl (.nil _)))))))))))
  case stale => exact fun _ hup => absurd (hup.listed 0 rfl rfl) (by decide)
  case outdated =>
    exact fun _ f hmissing =>
      absurd hmissing (Ensuring.not_missing_of_outdated rfl rfl (by decide) f)

theorem careful_creating : ensuring.Run Careful (Sample.after Sample.outdated) Sample.creating
    (Sample.after (Sample.outdated ++ Sample.creating)) := by
  refine .cons trivial rfl (.cons (careful_go rfl trivial) rfl (.cons (careful_go rfl trivial) rfl
    (.cons trivial rfl (.cons (careful_go rfl ?refilled) rfl (.cons (careful_go rfl ?unnoted) rfl
    (.cons trivial rfl (.cons trivial rfl (.cons (careful_go rfl ?there) rfl (.nil _)))))))))
  case refilled => exact fun _ hup => absurd hup.noted Bool.false_ne_true
  case unnoted =>
    exact fun _ f hmissing => absurd hmissing (Ensuring.not_missing_of_not_noted rfl f)
  case there =>
    rintro - f ⟨⟨schema, hmem, rfl⟩, habsent, -⟩
    have hs : schema ∈ ["s"] := hmem
    rw [List.mem_singleton.1 hs] at habsent
    have hthere : SchemaSlot.there = .absent := habsent
    cases hthere

theorem provided_creating : (Sample.after (Sample.outdated ++ Sample.creating)).Provided :=
  provided ⟨_, careful_outdated.append careful_creating⟩

/-- The outer call returns without a schema. -/
theorem not_provided :
    ensuring.Run Machine.Free {} Sample.reentered (Sample.after Sample.reentered) ∧
      ¬(Sample.after Sample.reentered).Provided := by
  refine ⟨Machine.run_of_exec rfl, fun h => ?_⟩
  have hanswered : (Sample.after Sample.reentered).answered = true := by rfl
  have hschemas : (Sample.after Sample.reentered).names.schemas = ["s"] := by rfl
  have hnoted : (Sample.after Sample.reentered).names.noted = true := by rfl
  have hversion : (Sample.after Sample.reentered).version = fun _ => 0 := by rfl
  have hlisted : (Sample.after Sample.reentered).names.listedVersion = 0 := by rfl
  have habsent : (Sample.after Sample.reentered).schemas = fun _ => .absent := by rfl
  rcases h hanswered (fold "s") ⟨"s", by rw [hschemas]; exact List.mem_cons_self, rfl⟩ with
    hthere | ⟨tx, hpending⟩ | hnot
  · rw [habsent] at hthere
    cases hthere
  · rw [habsent] at hpending
    cases hpending
  · exact hnot ⟨hnoted, fun p _ _ => by rw [hversion, hlisted]⟩

end Provider

end VirtualCatalog
