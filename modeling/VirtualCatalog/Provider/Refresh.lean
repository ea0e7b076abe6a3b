import VirtualCatalog.Machine.Basic
import VirtualCatalog.Provider.Listing
import Mathlib.Logic.Function.Basic

/-!
# Refreshing the names of a provider

Any number of threads look at the schemas of one catalog.  Each refreshes the listed names
(`RefreshProviderNames`: a section under the catalog's lock, a list call without a lock, a second
section) and then reads them in a section of their own (`TablesForSchema`), while it holds the
lock of the schema; `EnsureProviderSchemas` refreshes without such a lock.

* `Names` : the state behind the catalog's lock, with its three sections.
* `refreshing` : the machine, one label for each step a thread takes between two locks.
* `Answer.Fresh` : an answer is made of a list call that began after every invalidation that was
  there when its lookup began.
* `Untouched` : no list result is stored between the refresh and the read of a lookup that began
  after the list call.
* `fresh_answers` : under this condition every answer is fresh; epochs never go back.
-/

namespace VirtualCatalog

namespace Provider

/-- The result of a list call. -/
structure ListResult where
  /-- `tables_by_schema`. -/
  tables : CIMap (List String) := ∅
  /-- Ghost: how many invalidations of the provider there had been when the call began. -/
  began : Nat := 0

/-- The names of a catalog, behind `provider_lock`.  Providers are numbered; each registration
makes a new one. -/
structure Names where
  provider : Option Nat := none
  listedVersion : Nat := 0
  namesFilled : Bool := false
  epoch : Nat := 0
  listed : ListResult := {}

namespace Names

/-- The first section of `RefreshProviderNames`: the provider to list with its version, or `none`
if there is nothing to do. -/
def toList? (c : Names) (version : Nat → Nat) : Option (Nat × Nat) :=
  match c.provider with
  | none => none
  | some p => if c.namesFilled && version p == c.listedVersion then none else some (p, version p)

/-- The second section of `RefreshProviderNames`: store what `p` listed at `version`.  A genuine
move of the version bumps the epoch. -/
def store (c : Names) (p version : Nat) (result : ListResult) : Names :=
  if c.provider = some p then
    { c with
      listed := result
      listedVersion := version
      namesFilled := true
      epoch := if c.namesFilled && version != c.listedVersion then c.epoch + 1 else c.epoch }
  else c

/-- `SetProvider`. -/
def setProvider (c : Names) (p : Option Nat) : Names :=
  { provider := p, epoch := c.epoch + 1 }

end Names

/-- `ProviderTables`. -/
structure ProviderTables where
  provider : Option Nat
  epoch : Nat
  names : List String
  /-- Ghost: when the list call began that the names are from. -/
  began : Nat

/-- The section of `TablesForSchema`. -/
def Names.read (c : Names) (schema : String) : ProviderTables :=
  ⟨c.provider, c.epoch, (c.listed.tables.find? schema).getD [], c.listed.began⟩

/-- The wrapper of a schema. -/
structure SchemaEntry where
  /-- Who holds its `provider_lock`. -/
  holder : Option Nat := none
  cachedEpoch : Nat := 0

/-- Where a thread is. -/
inductive Stage where
  /-- Before the lock of the schema. -/
  | waiting
  /-- Before the first section of the refresh. -/
  | checking
  /-- Before the list call to a provider, whose version was read. -/
  | calling (provider version : Nat)
  /-- In the list call. -/
  | listing (provider version began : Nat)
  /-- Before the second section of the refresh. -/
  | storing (provider version : Nat) (result : ListResult)
  /-- After the refresh. -/
  | reading
  /-- With the names in hand. -/
  | answering (tables : ProviderTables)

/-- A thread: a lookup in a schema or a scan of it, or `EnsureProviderSchemas`. -/
structure Thread where
  /-- The schema that is looked at; `EnsureProviderSchemas` looks at none. -/
  schema : Option String
  /-- `ListingGuard::Active()`: it runs inside a list call of its own thread. -/
  inListing : Bool
  /-- Ghost: the provider when it began. -/
  provider : Option Nat
  /-- Ghost: how many invalidations of that provider there had been. -/
  since : Nat
  stage : Stage

/-- What a lookup or a scan answered from. -/
structure Answer where
  thread : Thread
  tables : ProviderTables

/-- What the threads share. -/
structure Shared where
  catalog : Names := {}
  /-- `ProviderInfo::version`. -/
  version : Nat → Nat := fun _ => 0
  /-- The number of the next provider. -/
  nextProvider : Nat := 0
  schemas : String → SchemaEntry := fun _ => {}
  answers : List Answer := []

/-- `RefreshedTables` once the tables are read: the entry cache is retired when the epoch moved. -/
def SchemaEntry.refreshed (e : SchemaEntry) (tables : ProviderTables) : SchemaEntry :=
  if tables.epoch ≠ e.cachedEpoch then { e with cachedEpoch := tables.epoch } else e

/-- Release the lock of the schema, if the thread has one. -/
def Shared.release (s : Shared) : Option String → Shared
  | none => s
  | some n => { s with schemas := Function.update s.schemas n { s.schemas n with holder := none } }

/-- The thread at its next stage. -/
def Thread.at (th : Thread) (stage : Stage) : Thread := { th with stage }

/-- What the thread `t` does next, unless it waits for the list UDF: what it shares afterwards, and
the thread, which is gone when it is done. -/
def Shared.advance (s : Shared) (t : Nat) (th : Thread) : Option (Shared × Option Thread) :=
  match th.stage with
  | .waiting =>
    match th.schema with
    | none => some (s, some (th.at .checking))
    | some n =>
      -- the lookup holds the lock of its schema entry until it has answered
      if (s.schemas n).holder = none then
        some ({ s with
          schemas := Function.update s.schemas n { s.schemas n with holder := some t } },
          some (th.at .checking))
      else none
  | .checking =>
    match s.catalog.toList? s.version with
    -- no provider, or its names are of this version
    | none => some (s, some (th.at .reading))
    | some (p, version) =>
      -- the guard of the thread: a list UDF that looks tables up does not list again
      if th.inListing then some (s, some (th.at .reading))
      else some (s, some (th.at (.calling p version)))
  | .calling p version => some (s, some (th.at (.listing p version (s.version p))))
  | .listing _ _ _ => none
  | .storing p version result =>
    -- the store compares the provider, and never the version, with the one it read
    some ({ s with catalog := s.catalog.store p version result }, some (th.at .reading))
  | .reading =>
    match th.schema with
    | none => some (s, none)
    | some n => some (s, some (th.at (.answering (s.catalog.read n))))
  | .answering tables =>
    match th.schema with
    | none => none
    | some n =>
      some ({ s with
        schemas := Function.update s.schemas n
          { (s.schemas n).refreshed tables with holder := none }
        answers := s.answers ++ [⟨th, tables⟩] }, none)

/-- The list UDF returned a text to the thread, or failed. -/
def Shared.returned (s : Shared) (th : Thread) (r : Except String String) :
    Option (Shared × Option Thread) :=
  match th.stage with
  | .listing p version began =>
    match r.mapError ProviderError.udf >>= refreshProviderNames with
    | .ok tables => some (s, some (th.at (.storing p version ⟨tables, began⟩)))
    | .error _ => some (s.release th.schema, none)
  | _ => none

/-- The threads with what they share. -/
structure Refreshing where
  shared : Shared := {}
  threads : Nat → Option Thread := fun _ => none

/-- The start: no provider, no thread, no answer. -/
def Refreshing.start : Refreshing := {}

/-- The steps. -/
inductive Refreshing.Label where
  /-- A lookup, a scan or `EnsureProviderSchemas` begins. -/
  | begin (t : Nat) (schema : Option String) (inListing : Bool)
  /-- A thread goes on. -/
  | go (t : Nat)
  /-- The list UDF returns to a thread. -/
  | returns (t : Nat) (r : Except String String)
  /-- `vcatprovider_invalidate_tables`; the call has returned only after this. -/
  | invalidate (p : Nat)
  /-- `vcatprovider_register`. -/
  | register
  /-- `vcatprovider_unregister`. -/
  | unregister

namespace Refreshing

/-- The state after `t` took a step. -/
def moved (s : Refreshing) (t : Nat) (r : Shared × Option Thread) : Refreshing :=
  ⟨r.1, Function.update s.threads t r.2⟩

/-- How many invalidations the provider of the catalog has seen. -/
def now (s : Refreshing) : Nat := (s.shared.catalog.provider.map s.shared.version).getD 0

/-- One step. -/
def next (s : Refreshing) : Label → Option Refreshing
  | .begin t schema inListing =>
    match s.threads t with
    | some _ => none
    | none => some (s.moved t
        (s.shared, some ⟨schema, inListing, s.shared.catalog.provider, s.now, .waiting⟩))
  | .go t => (s.threads t).bind fun th => (s.shared.advance t th).map (s.moved t)
  | .returns t r => (s.threads t).bind fun th => (s.shared.returned th r).map (s.moved t)
  | .invalidate p =>
    if p < s.shared.nextProvider then
      some { s with
        shared := { s.shared with
          version := Function.update s.shared.version p (s.shared.version p + 1) } }
    else none
  | .register => some { s with
      shared := { s.shared with
        catalog := s.shared.catalog.setProvider (some s.shared.nextProvider)
        nextProvider := s.shared.nextProvider + 1 } }
  | .unregister => some { s with
      shared := { s.shared with catalog := s.shared.catalog.setProvider none } }

end Refreshing

/-- The machine of the threads. -/
def refreshing : Machine Refreshing Refreshing.Label := ⟨Refreshing.next⟩

/-! ### Fresh answers -/

/-- The names were listed by a call that began after every invalidation that was there when the
lookup began, if the provider is still the same. -/
def Answer.Fresh (a : Answer) : Prop :=
  ∀ p, a.thread.provider = some p → a.tables.provider = some p → a.thread.since ≤ a.tables.began

/-- A lookup outside a list call that has refreshed the names of `p` and has yet to read them. -/
structure Thread.Refreshed (th : Thread) (p : Nat) : Prop where
  stage : th.stage = .reading
  schema : th.schema ≠ none
  outside : th.inListing = false
  provider : th.provider = some p

/-- The step does not store a list result under a lookup that has refreshed the names and that
began after that list call. -/
def Untouched (s : Refreshing) : Refreshing.Label → Prop
  | .go t => ∀ th p version result, s.threads t = some th →
      th.stage = .storing p version result → s.shared.catalog.provider = some p →
      ∀ t' th', s.threads t' = some th' → th'.Refreshed p → th'.since ≤ result.began
  | _ => True

/-! ### What a thread knows -/

/-- The provider that was there when the thread began still is. -/
def Thread.Current (th : Thread) (s : Shared) : Prop :=
  ∃ p, th.provider = some p ∧ s.catalog.provider = some p

/-- What a thread may rely on at each stage. -/
def Stage.Ok (s : Shared) (th : Thread) : Stage → Prop
  | .waiting => True
  | .checking => True
  | .calling p version => version ≤ s.version p ∧
      (th.Current s → th.provider = some p ∧ th.since ≤ version)
  | .listing p version began => version ≤ began ∧
      (th.Current s → th.provider = some p ∧ th.since ≤ version)
  | .storing p version result => version ≤ result.began ∧
      (th.Current s → th.provider = some p ∧ th.since ≤ version)
  | .reading => th.schema ≠ none → th.inListing = false → th.Current s →
      s.catalog.namesFilled = true ∧ th.since ≤ s.catalog.listed.began
  | .answering tables => tables.epoch ≤ s.catalog.epoch ∧
      (∀ n, th.schema = some n → (s.schemas n).cachedEpoch ≤ tables.epoch) ∧
      (th.inListing = false → ∀ p, th.provider = some p → tables.provider = some p →
        th.since ≤ tables.began)

/-- The invariant of one thread. -/
structure Thread.Ok (s : Shared) (t : Nat) (th : Thread) : Prop where
  known : ∀ p, th.provider = some p → p < s.nextProvider ∧ th.since ≤ s.version p
  holds : th.stage ≠ .waiting → ∀ n, th.schema = some n → (s.schemas n).holder = some t
  stage : th.stage.Ok s th

/-- The invariant of what is shared. -/
structure Shared.Ok (s : Shared) : Prop where
  known : ∀ p, s.catalog.provider = some p → p < s.nextProvider
  listed : s.catalog.namesFilled = true → s.catalog.listedVersion ≤ s.catalog.listed.began
  cached : ∀ n, (s.schemas n).cachedEpoch ≤ s.catalog.epoch
  fresh : ∀ a ∈ s.answers, a.thread.inListing = false → a.Fresh

/-- What a step leaves to the thread `t` that did not take it. -/
structure Frame (s s' : Shared) (t : Nat) (th : Thread) : Prop where
  version : ∀ p, s.version p ≤ s'.version p
  nextProvider : s.nextProvider ≤ s'.nextProvider
  epoch : s.catalog.epoch ≤ s'.catalog.epoch
  holder : ∀ n, (s.schemas n).holder = some t → (s'.schemas n).holder = some t
  cached : ∀ n, (s.schemas n).holder = some t →
    (s'.schemas n).cachedEpoch = (s.schemas n).cachedEpoch
  current : th.Current s' → th.Current s
  reading : ∀ p, th.Refreshed p → s'.catalog.provider = some p → s.catalog.namesFilled = true →
    th.since ≤ s.catalog.listed.began →
    s'.catalog.namesFilled = true ∧ th.since ≤ s'.catalog.listed.began

variable {s s' : Shared} {t : Nat} {th : Thread}

/-- The invariant of a thread survives the steps of the others. -/
theorem Thread.Ok.frame (h : th.Ok s t) (hf : Frame s s' t th) : th.Ok s' t := by
  refine ⟨?_, fun hw n hn => hf.holder n (h.holds hw n hn), ?_⟩
  · intro p hp
    obtain ⟨hlt, hle⟩ := h.known p hp
    exact ⟨lt_of_lt_of_le hlt hf.nextProvider, le_trans hle (hf.version p)⟩
  · have hstage := h.stage
    have hholds := h.holds
    cases hst : th.stage with
    | waiting => trivial
    | checking => trivial
    | calling p version =>
      rw [hst] at hstage
      exact ⟨le_trans hstage.1 (hf.version p), fun hc => hstage.2 (hf.current hc)⟩
    | listing p version began =>
      rw [hst] at hstage
      exact ⟨hstage.1, fun hc => hstage.2 (hf.current hc)⟩
    | storing p version result =>
      rw [hst] at hstage
      exact ⟨hstage.1, fun hc => hstage.2 (hf.current hc)⟩
    | reading =>
      rw [hst] at hstage
      intro hschema hout hc
      obtain ⟨hfilled, hle⟩ := hstage hschema hout (hf.current hc)
      obtain ⟨p, hp, hp'⟩ := hc
      exact hf.reading p ⟨hst, hschema, hout, hp⟩ hp' hfilled hle
    | answering tables =>
      rw [hst] at hstage hholds
      obtain ⟨he, hcached, hfresh⟩ := hstage
      refine ⟨le_trans he hf.epoch, fun n hn => ?_, hfresh⟩
      rw [hf.cached n (hholds (by simp) n hn)]
      exact hcached n hn

/-! ### What a step can do -/

/-- The steps of a thread. -/
inductive Advances (s : Shared) (t : Nat) (th : Thread) : Shared → Option Thread → Prop
  | enter (hst : th.stage = .waiting) (hschema : th.schema = none) :
      Advances s t th s (some (th.at .checking))
  | lock (n : String) (hst : th.stage = .waiting) (hschema : th.schema = some n)
      (hfree : (s.schemas n).holder = none) :
      Advances s t th { s with
        schemas := Function.update s.schemas n { s.schemas n with holder := some t } }
        (some (th.at .checking))
  | skip (hst : th.stage = .checking)
      (hskip : s.catalog.toList? s.version = none ∨ th.inListing = true) :
      Advances s t th s (some (th.at .reading))
  | ask (p version : Nat) (hst : th.stage = .checking)
      (hask : s.catalog.toList? s.version = some (p, version)) :
      Advances s t th s (some (th.at (.calling p version)))
  | call (p version : Nat) (hst : th.stage = .calling p version) :
      Advances s t th s (some (th.at (.listing p version (s.version p))))
  | store (p version : Nat) (result : ListResult) (hst : th.stage = .storing p version result) :
      Advances s t th { s with catalog := s.catalog.store p version result }
        (some (th.at .reading))
  | ensured (hst : th.stage = .reading) (hschema : th.schema = none) : Advances s t th s none
  | read (n : String) (hst : th.stage = .reading) (hschema : th.schema = some n) :
      Advances s t th s (some (th.at (.answering (s.catalog.read n))))
  | answer (n : String) (tables : ProviderTables) (hst : th.stage = .answering tables)
      (hschema : th.schema = some n) :
      Advances s t th { s with
        schemas := Function.update s.schemas n
          { (s.schemas n).refreshed tables with holder := none }
        answers := s.answers ++ [⟨th, tables⟩] } none

theorem advances_of_advance {r : Shared × Option Thread} (h : s.advance t th = some r) :
    Advances s t th r.1 r.2 := by
  unfold Shared.advance at h
  split at h
  case h_1 hst =>
    split at h
    case h_1 hschema => cases h; exact .enter hst hschema
    case h_2 n hschema =>
      split_ifs at h with hfree
      cases h
      exact .lock n hst hschema hfree
  case h_2 hst =>
    split at h
    case h_1 hask => cases h; exact .skip hst (.inl hask)
    case h_2 p version hask =>
      split_ifs at h with hin
      · cases h
        exact .skip hst (.inr hin)
      · cases h
        exact .ask p version hst hask
  case h_3 p version hst => cases h; exact .call p version hst
  case h_4 => cases h
  case h_5 p version result hst => cases h; exact .store p version result hst
  case h_6 hst =>
    split at h
    case h_1 hschema => cases h; exact .ensured hst hschema
    case h_2 n hschema => cases h; exact .read n hst hschema
  case h_7 tables hst =>
    split at h
    case h_1 => cases h
    case h_2 n hschema => cases h; exact .answer n tables hst hschema

/-- A list call that returns: its result waits to be stored, or the lookup throws. -/
theorem returned_eq_some {r : Except String String} {x : Shared × Option Thread}
    (h : s.returned th r = some x) :
    ∃ p version began, th.stage = .listing p version began ∧
      ((∃ tables, x = (s, some (th.at (.storing p version ⟨tables, began⟩)))) ∨
        x = (s.release th.schema, none)) := by
  unfold Shared.returned at h
  split at h
  case h_1 p version began hst =>
    split at h
    case h_1 tables _ => exact ⟨p, version, began, hst, .inl ⟨tables, (Option.some.inj h).symm⟩⟩
    case h_2 => exact ⟨p, version, began, hst, .inr (Option.some.inj h).symm⟩
  case h_2 => cases h

/-- The names that need no listing are those of the current version. -/
theorem Names.toList?_eq_none {c : Names} {version : Nat → Nat} {p : Nat}
    (h : c.toList? version = none) (hp : c.provider = some p) :
    c.namesFilled = true ∧ version p = c.listedVersion := by
  simpa [Names.toList?, hp] using h

theorem Names.toList?_eq_some {c : Names} {version : Nat → Nat} {p v : Nat}
    (h : c.toList? version = some (p, v)) : c.provider = some p ∧ v = version p := by
  unfold Names.toList? at h
  split at h
  case h_1 => cases h
  case h_2 p' hp =>
    split_ifs at h
    cases h
    exact ⟨hp, rfl⟩

/-! ### Frames -/

theorem Frame.refl (s : Shared) (t : Nat) (th : Thread) : Frame s s t th :=
  ⟨fun _ => le_rfl, le_rfl, le_rfl, fun _ h => h, fun _ _ => rfl, id, fun _ _ _ hf h => ⟨hf, h⟩⟩

/-- A change to a schema whose lock another thread has, or nobody. -/
theorem Frame.schema (s : Shared) (n : String) (e : SchemaEntry) (answers : List Answer)
    (h : (s.schemas n).holder ≠ some t) :
    Frame s { s with schemas := Function.update s.schemas n e, answers } t th := by
  have hne : ∀ n', (s.schemas n').holder = some t → n' ≠ n := by
    rintro n' hn' rfl
    exact h hn'
  refine ⟨fun _ => le_rfl, le_rfl, le_rfl, fun n' hn' => ?_, fun n' hn' => ?_, id,
    fun _ _ _ hf hle => ⟨hf, hle⟩⟩
  · show (Function.update s.schemas n e n').holder = some t
    rw [Function.update_of_ne (hne n' hn')]
    exact hn'
  · show (Function.update s.schemas n e n').cachedEpoch = _
    rw [Function.update_of_ne (hne n' hn')]

theorem Names.store_epoch (c : Names) (p version : Nat) (result : ListResult) :
    c.epoch ≤ (c.store p version result).epoch := by
  unfold Names.store
  split_ifs <;> simp

theorem Names.store_provider (c : Names) (p version : Nat) (result : ListResult) :
    (c.store p version result).provider = c.provider := by
  unfold Names.store
  split_ifs <;> rfl

/-- A stored result, as far as it began after the lookups it goes under. -/
theorem Frame.store (s : Shared) (p version : Nat) (result : ListResult)
    (h : s.catalog.provider = some p → th.Refreshed p → th.since ≤ result.began) :
    Frame s { s with catalog := s.catalog.store p version result } t th := by
  refine ⟨fun _ => le_rfl, le_rfl, Names.store_epoch _ _ _ _, fun _ h => h, fun _ _ => rfl, ?_, ?_⟩
  · rintro ⟨q, hq, hq'⟩
    exact ⟨q, hq, (Names.store_provider _ _ _ _).symm.trans hq'⟩
  · intro q hread hq hfilled hle
    rw [Names.store_provider] at hq
    by_cases hp : s.catalog.provider = some p
    · obtain rfl : p = q := Option.some.inj (hp.symm.trans hq)
      have hnew : s.catalog.store p version result = { s.catalog with
          listed := result, listedVersion := version, namesFilled := true
          epoch := if s.catalog.namesFilled && version != s.catalog.listedVersion
            then s.catalog.epoch + 1 else s.catalog.epoch } := if_pos hp
      rw [hnew]
      exact ⟨rfl, h hp hread⟩
    · have hsame : s.catalog.store p version result = s.catalog := if_neg hp
      rw [hsame]
      exact ⟨hfilled, hle⟩

/-! ### The step of a thread -/

variable {r : Option Thread}

/-- A thread that moves on to another stage keeps what it knew at its beginning. -/
theorem Thread.Ok.at (h : th.Ok s t) {stage : Stage}
    (hholds : ∀ n, th.schema = some n → (s.schemas n).holder = some t)
    (hstage : stage.Ok s (th.at stage)) : (th.at stage).Ok s t :=
  ⟨h.known, fun _ => hholds, hstage⟩

/-- **Step lemma**, for the thread itself: what it knows is what its stage promises. -/
theorem Advances.thread (ha : Advances s t th s' r) (hs : s.Ok) (h : th.Ok s t) :
    ∀ th' ∈ r, th'.Ok s' t := by
  have hstage := h.stage
  have hholds := h.holds
  intro th' hth'
  cases ha with
  | enter hst hschema =>
    cases hth'
    exact h.at (fun n hn => by rw [hschema] at hn; cases hn) trivial
  | lock n hst hschema hfree =>
    cases hth'
    refine ⟨h.known, fun _ n' hn' => ?_, trivial⟩
    obtain rfl : n = n' := Option.some.inj (hschema.symm.trans hn')
    simp
  | skip hst hskip =>
    cases hth'
    refine h.at (hholds (by simp [hst])) fun hschema hout hc => ?_
    obtain ⟨p, hp, hp'⟩ := hc
    -- outside a list call, the names were found up to date
    have hnone := hskip.resolve_right (by rw [show th.inListing = false from hout]; simp)
    obtain ⟨hfilled, hversion⟩ := Names.toList?_eq_none hnone hp'
    exact ⟨hfilled,
      le_trans (le_trans (h.known p hp).2 (Nat.le_of_eq hversion)) (hs.listed hfilled)⟩
  | ask p version hst hask =>
    cases hth'
    obtain ⟨hp, rfl⟩ := Names.toList?_eq_some hask
    refine h.at (hholds (by simp [hst])) ⟨le_rfl, fun hc => ?_⟩
    obtain ⟨q, hq, hq'⟩ := hc
    obtain rfl : p = q := Option.some.inj (hp.symm.trans hq')
    exact ⟨hq, (h.known p hq).2⟩
  | call p version hst =>
    cases hth'
    rw [hst] at hstage
    exact h.at (hholds (by simp [hst])) hstage
  | store p version result hst =>
    cases hth'
    rw [hst] at hstage
    refine ⟨h.known, fun _ => hholds (by simp [hst]), fun hschema hout hc => ?_⟩
    obtain ⟨q, hq, hq'⟩ := hc
    rw [Names.store_provider] at hq'
    obtain ⟨hp, hle⟩ := hstage.2 ⟨q, hq, hq'⟩
    obtain rfl : p = q := Option.some.inj (hp.symm.trans hq)
    have hnew : (s.catalog.store p version result).namesFilled = true ∧
        (s.catalog.store p version result).listed = result := by simp [Names.store, hq']
    show (s.catalog.store p version result).namesFilled = true ∧
      th.since ≤ (s.catalog.store p version result).listed.began
    rw [hnew.2]
    exact ⟨hnew.1, le_trans hle hstage.1⟩
  | ensured => cases hth'
  | read n hst hschema =>
    cases hth'
    rw [hst] at hstage
    refine h.at (hholds (by simp [hst])) ⟨le_rfl, fun n' _ => hs.cached n', fun hout p hp hp' => ?_⟩
    exact (hstage (by rw [hschema]; simp) hout ⟨p, hp, hp'⟩).2
  | answer => cases hth'

/-- **Step lemma**, for what is shared. -/
theorem Advances.shared (ha : Advances s t th s' r) (hs : s.Ok) (h : th.Ok s t) : s'.Ok := by
  have hstage := h.stage
  cases ha with
  | lock n hst hschema hfree =>
    refine ⟨hs.known, hs.listed, fun n' => ?_, hs.fresh⟩
    by_cases hn : n' = n
    · subst hn
      simpa using hs.cached n'
    · simpa [Function.update_of_ne hn] using hs.cached n'
  | store p version result hst =>
    rw [hst] at hstage
    by_cases hp : s.catalog.provider = some p
    · refine ⟨fun q hq => hs.known q ?_, fun _ => ?_,
        fun n => le_trans (hs.cached n) (Names.store_epoch _ _ _ _), hs.fresh⟩
      · exact (Names.store_provider _ _ _ _).symm.trans hq
      · show (s.catalog.store p version result).listedVersion ≤
          (s.catalog.store p version result).listed.began
        simpa [Names.store, hp] using hstage.1
    · have hsame : s.catalog.store p version result = s.catalog := if_neg hp
      rw [hsame]
      exact hs
  | answer n tables hst hschema =>
    rw [hst] at hstage
    obtain ⟨he, -, hfresh⟩ := hstage
    refine ⟨hs.known, hs.listed, fun n' => ?_, fun a ha hout => ?_⟩
    · by_cases hn : n' = n
      · subst hn
        have : ((s.schemas n').refreshed tables).cachedEpoch ≤ s.catalog.epoch := by
          unfold SchemaEntry.refreshed
          split_ifs
          · exact he
          · exact hs.cached n'
        simpa using this
      · simpa [Function.update_of_ne hn] using hs.cached n'
    · rcases List.mem_append.1 ha with ha | ha
      · exact hs.fresh a ha hout
      · obtain rfl := List.mem_singleton.1 ha
        exact hfresh hout
  | _ => exact hs

/-- **Step lemma**, for the other threads: a step leaves them what they know, unless it stores an
older list result under them. -/
theorem Advances.frame (ha : Advances s t th s' r) (h : th.Ok s t) {t₂ : Nat} {th₂ : Thread}
    (hne : t₂ ≠ t)
    (hstore : ∀ p version result, th.stage = .storing p version result →
      s.catalog.provider = some p → th₂.Refreshed p → th₂.since ≤ result.began) :
    Frame s s' t₂ th₂ := by
  have hholds := h.holds
  cases ha with
  | lock n hst hschema hfree =>
    exact Frame.schema s n _ s.answers (by simp [hfree])
  | store p version result hst => exact Frame.store s p version result (hstore p version result hst)
  | answer n tables hst hschema =>
    have := hholds (by simp [hst]) n hschema
    exact Frame.schema s n _ _ (by simp [this, hne.symm])
  | _ => exact Frame.refl s t₂ th₂

/-! ### The whole machine -/

namespace Refreshing

variable {σ σ' : Refreshing}

/-- The invariant of the machine. -/
structure Ok (σ : Refreshing) : Prop where
  shared : σ.shared.Ok
  threads : ∀ t th, σ.threads t = some th → th.Ok σ.shared t

/-- A step that is taken for `t` keeps the invariant if it keeps that of `t` and frames the
others. -/
theorem Ok.moved (h : σ.Ok) {x : Shared × Option Thread} (hs : x.1.Ok)
    (hth : ∀ th ∈ x.2, th.Ok x.1 t)
    (hf : ∀ t₂ th₂, t₂ ≠ t → σ.threads t₂ = some th₂ → Frame σ.shared x.1 t₂ th₂) :
    (σ.moved t x).Ok := by
  refine ⟨hs, fun t₂ th₂ ht₂ => ?_⟩
  by_cases hne : t₂ = t
  · subst hne
    refine hth th₂ ?_
    simpa [Refreshing.moved] using ht₂
  · have ht₂' : σ.threads t₂ = some th₂ := by
      simpa [Refreshing.moved, Function.update_of_ne hne] using ht₂
    exact (h.threads t₂ th₂ ht₂').frame (hf t₂ th₂ hne ht₂')

/-- A change to what is shared, outside every thread. -/
theorem Ok.outside (h : σ.Ok) {s' : Shared} (hs : s'.Ok)
    (hf : ∀ t th, th.Ok σ.shared t → Frame σ.shared s' t th) : Ok { σ with shared := s' } :=
  ⟨hs, fun t th ht => (h.threads t th ht).frame (hf t th (h.threads t th ht))⟩

/-- Releasing the lock that a thread holds. -/
theorem Ok.release (h : σ.Ok) (ht : σ.threads t = some th) (hw : th.stage ≠ .waiting) :
    (σ.shared.release th.schema).Ok ∧
      ∀ t₂ th₂, t₂ ≠ t → Frame σ.shared (σ.shared.release th.schema) t₂ th₂ := by
  cases hschema : th.schema with
  | none => exact ⟨h.shared, fun t₂ th₂ _ => Frame.refl _ _ _⟩
  | some n =>
    have hholder := (h.threads t th ht).holds hw n hschema
    refine ⟨⟨h.shared.known, h.shared.listed, fun n' => ?_, h.shared.fresh⟩,
      fun t₂ th₂ hne => Frame.schema _ n _ σ.shared.answers (by simp [hholder, hne.symm])⟩
    by_cases hn : n' = n
    · subst hn
      simpa [Shared.release] using h.shared.cached n'
    · simpa [Shared.release, Function.update_of_ne hn] using h.shared.cached n'

/-- Replacing the provider: the next one is new to every thread. -/
theorem Ok.setProvider (h : σ.Ok) (p : Option Nat) (next : Nat)
    (hp : ∀ q, p = some q → σ.shared.nextProvider ≤ q ∧ q < next)
    (hnext : σ.shared.nextProvider ≤ next) :
    Ok { σ with
      shared := { σ.shared with
        catalog := σ.shared.catalog.setProvider p, nextProvider := next } } := by
  refine h.outside ⟨fun q hq => (hp q hq).2, fun hf => by simp [Names.setProvider] at hf,
    fun n => le_trans (h.shared.cached n) (Nat.le_succ _), h.shared.fresh⟩ fun t th hth => ?_
  have hgone : ∀ q, th.provider = some q → p ≠ some q := by
    intro q hq hpq
    have := (hth.known q hq).1
    have := (hp q hpq).1
    omega
  refine ⟨fun _ => le_rfl, hnext, Nat.le_succ _, fun _ h => h, fun _ _ => rfl, ?_, ?_⟩
  · rintro ⟨q, hq, hq'⟩
    exact absurd hq' (hgone q hq)
  · intro q hread hq
    exact absurd hq (hgone q hread.provider)

/-- **Step lemma**: a step that stores no older list result under a refreshed lookup keeps the
invariant. -/
theorem Ok.next {l : Label} (h : σ.Ok) (hc : Untouched σ l) (hn : σ.next l = some σ') : σ'.Ok := by
  cases l with
  | begin t schema inListing =>
    cases ht : σ.threads t with
    | some th => simp [Refreshing.next, ht] at hn
    | none =>
      simp only [Refreshing.next, ht, Option.some.injEq] at hn
      subst hn
      refine h.moved h.shared ?_ fun t₂ th₂ _ _ => Frame.refl _ _ _
      intro th hth
      cases hth
      refine ⟨fun p hp => ⟨h.shared.known p hp, ?_⟩, fun hw => absurd rfl hw, trivial⟩
      have hp' : σ.shared.catalog.provider = some p := hp
      simp [Refreshing.now, hp']
  | go t =>
    obtain ⟨th, ht, hx⟩ := Option.bind_eq_some_iff.1 hn
    obtain ⟨x, hadvance, rfl⟩ := Option.map_eq_some_iff.1 hx
    have ha := advances_of_advance hadvance
    have hth := h.threads t th ht
    -- `Advances` says what a thread may do; only a store can leave another one behind
    refine h.moved (ha.shared h.shared hth) (ha.thread h.shared hth) fun t₂ th₂ hne ht₂ => ?_
    exact ha.frame hth hne fun p version result hst hp hread =>
      hc th p version result ht hst hp t₂ th₂ ht₂ hread
  | returns t r =>
    obtain ⟨th, ht, hx⟩ := Option.bind_eq_some_iff.1 hn
    obtain ⟨x, hreturned, rfl⟩ := Option.map_eq_some_iff.1 hx
    have hth := h.threads t th ht
    obtain ⟨p, version, began, hst, ⟨tables, rfl⟩ | rfl⟩ := returned_eq_some hreturned
    · refine h.moved h.shared ?_ fun t₂ th₂ _ _ => Frame.refl _ _ _
      intro th' hth'
      cases hth'
      -- the list UDF answers: the thread has the version from before the call
      have hstage := hth.stage
      rw [hst] at hstage
      exact hth.at (hth.holds (by simp [hst])) hstage
    -- or it fails, and the thread is gone with its lock
    · obtain ⟨hs, hf⟩ := h.release ht (by simp [hst])
      exact h.moved hs (fun th' hth' => by cases hth') fun t₂ th₂ hne _ => hf t₂ th₂ hne
  | invalidate p =>
    simp only [Refreshing.next] at hn
    split_ifs at hn
    cases hn
    refine h.outside ⟨h.shared.known, h.shared.listed, h.shared.cached, h.shared.fresh⟩
      fun t th _ => ?_
    refine ⟨fun q => ?_, le_rfl, le_rfl, fun _ h => h, fun _ _ => rfl, id,
      fun _ _ _ hf hle => ⟨hf, hle⟩⟩
    show σ.shared.version q ≤ Function.update σ.shared.version p (σ.shared.version p + 1) q
    rw [Function.update_apply]
    split_ifs with hq
    · rw [hq]
      exact Nat.le_succ _
    · exact le_rfl
  | register =>
    cases hn
    refine h.setProvider _ _ (fun q hq => ?_) (Nat.le_succ _)
    cases hq
    exact ⟨le_rfl, Nat.lt_succ_self _⟩
  | unregister =>
    cases hn
    exact h.setProvider none _ (fun q hq => by cases hq) le_rfl

theorem ok_start : start.Ok where
  shared := ⟨nofun, nofun, fun _ => le_rfl, nofun⟩
  threads := nofun

/-! ### Epochs -/

/-- **Step lemma**: no cached epoch goes back. -/
theorem Ok.cachedEpoch_le {l : Label} (h : σ.Ok) (hn : σ.next l = some σ') (n : String) :
    (σ.shared.schemas n).cachedEpoch ≤ (σ'.shared.schemas n).cachedEpoch := by
  have hupdate : ∀ (m : String) (e : SchemaEntry),
      (m = n → (σ.shared.schemas m).cachedEpoch ≤ e.cachedEpoch) →
      (σ.shared.schemas n).cachedEpoch ≤ (Function.update σ.shared.schemas m e n).cachedEpoch := by
    intro m e hle
    rw [Function.update_apply]
    split_ifs with hnm
    · subst hnm
      exact hle rfl
    · exact le_rfl
  cases l with
  | begin t schema inListing =>
    cases ht : σ.threads t with
    | some th => simp [Refreshing.next, ht] at hn
    | none =>
      simp only [Refreshing.next, ht, Option.some.injEq] at hn
      subst hn
      exact le_rfl
  | go t =>
    obtain ⟨th, ht, hx⟩ := Option.bind_eq_some_iff.1 hn
    obtain ⟨⟨s', r⟩, hadvance, rfl⟩ := Option.map_eq_some_iff.1 hx
    have hstage := (h.threads t th ht).stage
    have ha := advances_of_advance hadvance
    dsimp only at ha
    cases ha with
    | lock m hst hschema hfree => exact hupdate m _ fun _ => le_rfl
    | answer m tables hst hschema =>
      rw [hst] at hstage
      refine hupdate m _ fun hm => ?_
      show _ ≤ ((σ.shared.schemas m).refreshed tables).cachedEpoch
      unfold SchemaEntry.refreshed
      split_ifs
      · exact hstage.2.1 m hschema
      · exact le_rfl
    | _ => exact le_rfl
  | returns t r =>
    obtain ⟨th, ht, hx⟩ := Option.bind_eq_some_iff.1 hn
    obtain ⟨x, hreturned, rfl⟩ := Option.map_eq_some_iff.1 hx
    obtain ⟨p, version, began, hst, ⟨tables, rfl⟩ | rfl⟩ := returned_eq_some hreturned
    · exact le_rfl
    · show _ ≤ ((σ.shared.release th.schema).schemas n).cachedEpoch
      cases th.schema with
      | none => exact le_rfl
      | some m => exact hupdate m _ fun _ => le_rfl
  | invalidate p =>
    simp only [Refreshing.next] at hn
    split_ifs at hn
    cases hn
    exact le_rfl
  | register => cases hn; exact le_rfl
  | unregister => cases hn; exact le_rfl

end Refreshing

/-! ### Runs -/

variable {σ τ : Refreshing} {ls ls' : List Refreshing.Label}

/-- The invariant holds wherever runs of undisturbed lookups lead. -/
theorem ok_of_run (h : refreshing.Run Untouched .start ls σ) : σ.Ok :=
  h.invariant Refreshing.ok_start fun _ _ _ hok hc hn => hok.next hc hn

/-- **Invalidation freshness.**  As long as no list result is stored between the refresh and the
read of a lookup that began after the list call, every lookup outside a list call answers from a
list call that began after each invalidation before it, and no cached epoch goes back. -/
theorem fresh_answers (h : refreshing.Run Untouched .start ls σ)
    (h' : refreshing.Run Untouched σ ls' τ) :
    (∀ a ∈ τ.shared.answers, a.thread.inListing = false → a.Fresh) ∧
      ∀ n, (σ.shared.schemas n).cachedEpoch ≤ (τ.shared.schemas n).cachedEpoch := by
  have hok := ok_of_run h
  have hτ : τ.Ok ∧ ∀ n, (σ.shared.schemas n).cachedEpoch ≤ (τ.shared.schemas n).cachedEpoch := by
    refine h'.invariant (I := fun υ => υ.Ok ∧
      ∀ n, (σ.shared.schemas n).cachedEpoch ≤ (υ.shared.schemas n).cachedEpoch)
      ⟨hok, fun n => le_rfl⟩ fun υ l υ' hυ hc hn => ?_
    exact ⟨hυ.1.next hc hn, fun n => le_trans (hυ.2 n) (hυ.1.cachedEpoch_le hn n)⟩
  exact ⟨hτ.1.shared.fresh, hτ.2⟩

/-- Thread 1 lists the provider; it is invalidated and thread 2 begins to look at the schema `a`;
thread 1 stores the old names, and thread 2 lists the provider anew. -/
def Sample.relisted : List Refreshing.Label :=
  [.register, .begin 1 none false, .go 1, .go 1, .go 1, .invalidate 0, .begin 2 (some "a") false,
    .returns 1 (.ok "a.old"), .go 1, .go 1, .go 2, .go 2, .go 2, .returns 2 (.ok "a.new"), .go 2,
    .go 2, .go 2]

/-- A step that stores nothing. -/
theorem untouched_of_stage {t : Nat} {th : Thread} (ht : σ.threads t = some th)
    (hst : ∀ p version result, th.stage ≠ .storing p version result) : Untouched σ (.go t) := by
  intro th' p version result ht' hst'
  obtain rfl := Option.some.inj (ht.symm.trans ht')
  exact absurd hst' (hst p version result)

/-- A step while no thread has refreshed the names. -/
theorem untouched_of_refreshed {t : Nat}
    (h : ∀ t' th', σ.threads t' = some th' → th'.stage ≠ .reading) : Untouched σ (.go t) :=
  fun _ _ _ _ _ _ _ t' th' ht' hread => absurd hread.stage (h t' th' ht')

/-- Thread 2 answers with the new names. -/
theorem fresh_answers_relisted : ∃ σ, refreshing.Run Untouched .start Sample.relisted σ ∧
    (σ.shared.answers.map fun a => (a.thread.since, a.tables.names)) = [(1, ["new"])] ∧
    (∀ a ∈ σ.shared.answers, a.thread.inListing = false → a.Fresh) ∧
    ∀ n, (Refreshing.start.shared.schemas n).cachedEpoch ≤ (σ.shared.schemas n).cachedEpoch := by
  obtain ⟨σ, hrun, hanswers⟩ : ∃ σ, refreshing.Run Untouched .start Sample.relisted σ ∧
      (σ.shared.answers.map fun a => (a.thread.since, a.tables.names)) = [(1, ["new"])] := by
    refine ⟨_, .cons trivial rfl (.cons trivial rfl
      (.cons (untouched_of_stage rfl nofun) rfl (.cons (untouched_of_stage rfl nofun) rfl
      (.cons (untouched_of_stage rfl nofun) rfl (.cons trivial rfl (.cons trivial rfl
      (.cons trivial rfl (.cons ?old rfl (.cons (untouched_of_stage rfl nofun) rfl
      (.cons (untouched_of_stage rfl nofun) rfl (.cons (untouched_of_stage rfl nofun) rfl
      (.cons (untouched_of_stage rfl nofun) rfl (.cons trivial rfl (.cons ?new rfl
      (.cons (untouched_of_stage rfl nofun) rfl (.cons (untouched_of_stage rfl nofun) rfl
      (.nil _))))))))))))))))), rfl⟩
    case old | new =>
      refine untouched_of_refreshed fun t th ht => ?_
      by_cases h₁ : t = 1
      · subst h₁
        cases ht <;> exact nofun
      · by_cases h₂ : t = 2
        · subst h₂
          cases ht
          exact nofun
        · simp only [Refreshing.moved, Refreshing.start, Function.update_of_ne h₁,
            Function.update_of_ne h₂] at ht
          cases ht
  exact ⟨σ, hrun, hanswers, fresh_answers (.nil _) hrun⟩

/-- Thread 1 lists the provider; it is invalidated; thread 2 looks at the schema `a`, lists it
anew and has its result stored, and before it reads the names thread 1 stores the old ones. -/
def Sample.overtaken : List Refreshing.Label :=
  [.register, .begin 1 none false, .go 1, .go 1, .go 1, .invalidate 0,
    .begin 2 (some "a") false, .go 2, .go 2, .go 2, .returns 2 (.ok "a.new"), .go 2,
    .returns 1 (.ok "a.old"), .go 1, .go 2, .go 2]

/-- The lookup began after the invalidation, refreshed the names itself, and answers from a list
call that began before it. -/
theorem not_fresh_answers : ∃ σ a, refreshing.Run Machine.Free .start Sample.overtaken σ ∧
    a ∈ σ.shared.answers ∧ a.thread.inListing = false ∧ a.tables.names = ["old"] ∧ ¬ a.Fresh := by
  have hanswer : (refreshing.exec .start Sample.overtaken).map
      (fun σ => σ.shared.answers.map fun a => ((a.thread.inListing, a.thread.provider,
        a.tables.provider), a.thread.since, a.tables.began, a.tables.names)) =
      some [((false, some 0, some 0), 1, 0, ["old"])] := rfl
  obtain ⟨σ, hσ, ha⟩ := Option.map_eq_some_iff.1 hanswer
  obtain ⟨a, hmem, hdata⟩ := List.map_eq_singleton_iff.1 ha
  simp only [Prod.mk.injEq] at hdata
  obtain ⟨⟨hin, hp, hp'⟩, hsince, hbegan, hnames⟩ := hdata
  refine ⟨σ, a, Machine.run_of_exec hσ, by simp [hmem], hin, hnames, fun hfresh => ?_⟩
  have := hfresh 0 hp hp'
  omega

end Provider

end VirtualCatalog
