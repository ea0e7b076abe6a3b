import VirtualCatalog.Machine.Basic
import VirtualCatalog.Provider.Listing
import Mathlib.Data.Finmap
import Mathlib.Data.Finset.Union
import Mathlib.Logic.Function.Basic

/-!
# Registering providers from Python

Python keeps one binding for a catalog (`Binding`, the source's `_CatalogProviders`): the provider
of each schema and the operations it has registered a UDF for.  A call changes the functions of
the connection one by one, tells the extension their names last, and any of these DuckDB calls may
fail.

* `perform` : some DuckDB calls one after the other, until one fails.
* `Binding.sync`, `Binding.close`, `registerProvider`, `unregisterProvider` : the source's calls.
* `Registrar.Atomic` : the extension holds only registered functions, the binding tracks them all,
  and a call that raised left the providers and the functions as they were.
* `Undisturbed` : no DuckDB call fails but the first that changes a function, or one of a call that
  changes none, or one that can be undone.
* `atomic_registration` : under this condition every call is atomic.
-/

namespace VirtualCatalog

namespace Provider

/-- `udf_name`: the name of the UDF of an operation, under a binding's probe id. -/
structure Udf where
  probeId : Nat
  op : Op
deriving DecidableEq

/-- `_CatalogProviders`.  Provider objects are numbered. -/
structure Binding where
  probeId : Nat
  providers : Finmap fun _ : String => Nat := ∅
  registeredOps : Finset Op := ∅

/-- The names of the UDFs of some operations. -/
def Binding.names (b : Binding) (ops : Finset Op) : Finset Udf := ops.image (Udf.mk b.probeId)

/-- The connection, as far as a call sees it. -/
structure Connection where
  /-- The Python functions that are registered. -/
  functions : Finset Udf := ∅
  /-- The UDF names the extension holds for the catalog, if it is registered there. -/
  held : Option (Finset Udf) := none
  /-- How many DuckDB calls were made. -/
  made : Nat := 0

/-- The calls that Python makes on DuckDB. -/
inductive DuckCall where
  | createFunction (f : Udf)
  | removeFunction (f : Udf)
  /-- `vcatprovider_register`. -/
  | register (names : Finset Udf)
  /-- `vcatprovider_unregister`. -/
  | unregister
  /-- `vcatprovider_invalidate_tables`. -/
  | invalidate

/-- What is refused: there is no provider to unregister or to invalidate. -/
def DuckCall.refused (c : Connection) : DuckCall → Bool
  | unregister => c.held.isNone
  | invalidate => c.held.isNone
  | _ => false

/-- What a call does that succeeds. -/
def DuckCall.effect (c : Connection) : DuckCall → Connection
  | createFunction f => { c with functions := insert f c.functions }
  | removeFunction f => { c with functions := c.functions.erase f }
  | register names => { c with held := some names }
  | unregister => { c with held := none }
  | invalidate => c

/-- One more DuckDB call. -/
def Connection.count (c : Connection) : Connection := { c with made := c.made + 1 }

/-- How some Python code ended. -/
structure Outcome where
  raised : Bool
  conn : Connection

/-- Make some DuckDB calls until one fails; the `i`-th one made fails if `fails i`, and then does
nothing. -/
def perform (fails : Nat → Bool) : List DuckCall → Connection → Outcome
  | [], c => ⟨false, c⟩
  | d :: ds, c =>
    if fails c.made || d.refused c then ⟨true, c.count⟩
    else perform fails ds (d.effect c.count)

/-- An order in which a set of operations may be iterated over. -/
structure Order where
  ops : List Op
  nodup : ops.Nodup
  complete : ∀ op, op ∈ ops

/-- The operations of a set in that order. -/
def Order.of (o : Order) (s : Finset Op) : List Op := o.ops.filter (· ∈ s)

/-- What the world decides during a call: which DuckDB calls fail, and in which order sets are
iterated over. -/
structure Choices where
  fails : Nat → Bool
  order : Order
  repairOrder : Order

section Calls

variable (implemented : Nat → Finset Op) (ch : Choices)

/-- The operations that the bound providers implement. -/
def Binding.wanted (b : Binding) : Finset Op :=
  {.list, .schema, .scan} ∪
    b.providers.keys.biUnion fun schema => ((b.providers.lookup schema).map implemented).getD ∅

/-- The functions that `sync` creates and removes. -/
def Binding.changes (b : Binding) (order : Order) (wanted : Finset Op) : List DuckCall :=
  (order.of (wanted \ b.registeredOps)).map (fun op => .createFunction ⟨b.probeId, op⟩) ++
    (order.of (b.registeredOps \ wanted)).map (fun op => .removeFunction ⟨b.probeId, op⟩)

/-- `sync`. -/
def Binding.sync (b : Binding) (c : Connection) : Outcome × Binding :=
  let wanted := b.wanted implemented
  let changed := perform ch.fails (b.changes ch.order wanted) c
  if changed.raised then (changed, b)
  else (perform ch.fails [.register (b.names wanted)] changed.conn,
    { b with registeredOps := wanted })

/-- `close`. -/
def Binding.close (b : Binding) (c : Connection) : Outcome × Binding :=
  let unregistered := perform ch.fails [.unregister] c
  if unregistered.raised then (unregistered, b)
  else
    let removed := perform ch.fails
      ((ch.order.of b.registeredOps).map fun op => .removeFunction ⟨b.probeId, op⟩)
      unregistered.conn
    (removed, if removed.raised then b else { b with registeredOps := ∅ })

/-- What Python keeps for a connection and a catalog, and what DuckDB has of it. -/
structure Registrar where
  /-- `_catalogs[con].get(catalog)`. -/
  entry : Option Binding := none
  /-- `provider._binding is not None`. -/
  bound : Nat → Bool := fun _ => false
  functions : Finset Udf := ∅
  held : Option (Finset Udf) := none
  /-- The next `uuid4`. -/
  nextProbe : Nat := 0

/-- What DuckDB has, at the beginning of a call. -/
def Registrar.conn (w : Registrar) : Connection := ⟨w.functions, w.held, 0⟩

/-- What is left after a call's DuckDB calls. -/
def Registrar.leave (w : Registrar) (c : Connection) : Registrar :=
  { w with functions := c.functions, held := c.held }

/-- `entries.get(catalog)`, or a new binding. -/
def Registrar.object (w : Registrar) : Binding := w.entry.getD { probeId := w.nextProbe }

/-- The binding with one more provider. -/
def Registrar.joined (w : Registrar) (schema : String) (provider : Nat) : Binding :=
  { w.object with providers := w.object.providers.insert schema provider }

/-- A new binding takes a `uuid4`. -/
def Registrar.constructed (w : Registrar) : Registrar :=
  { w with nextProbe := if w.entry.isNone then w.nextProbe + 1 else w.nextProbe }

/-- `del providers[schema]`. -/
def Binding.without (b : Binding) (schema : String) : Binding :=
  { b with providers := b.providers.erase schema }

/-- The `except` clause of `register_provider`, after a `sync` that raised. -/
def undoRegister (w : Registrar) (schema : String) (provider : Nat) (c : Connection) (b : Binding) :
    Registrar :=
  let b := b.without schema
  -- a binding in the dictionary is the object that `sync` worked on
  let w := { w with
    entry := w.entry.map fun _ => b, bound := Function.update w.bound provider false }
  if b.providers = ∅ then
    let removed := perform ch.fails
      ((ch.repairOrder.of b.registeredOps).map fun op => .removeFunction ⟨b.probeId, op⟩) c
    { w.leave removed.conn with entry := if removed.raised then w.entry else none }
  else w.leave c

/-- `register_provider`, after its `sync`: whether it raised, and what it left. -/
def finishRegister (w : Registrar) (schema : String) (provider : Nat)
    (synced : Outcome × Binding) : Bool × Registrar :=
  if synced.1.raised then (true, undoRegister ch w schema provider synced.1.conn synced.2)
  else (false, { w.leave synced.1.conn with
    entry := some synced.2, bound := Function.update w.bound provider true })

/-- `register_provider`: whether it raised, and what it left. -/
def registerProvider (w : Registrar) (schema : String) (provider : Nat) : Bool × Registrar :=
  if schema ∈ w.object.providers then (true, w.constructed)
  else
    finishRegister ch w.constructed schema provider
      ((w.joined schema provider).sync implemented ch w.conn)

/-- The `try` clause of `unregister_provider`. -/
def Binding.detach (b : Binding) (c : Connection) : Outcome × Binding :=
  if b.providers = ∅ then b.close ch c
  else
    let synced := b.sync implemented ch c
    if synced.1.raised then synced
    else (perform ch.fails [.invalidate] synced.1.conn, synced.2)

/-- `unregister_provider`, after its `try` clause: whether it raised, and what it left. -/
def finishUnregister (w : Registrar) (schema : String) (provider : Nat)
    (done : Outcome × Binding) : Bool × Registrar :=
  if done.1.raised then
    (true, { w.leave done.1.conn with
      entry := some { done.2 with providers := done.2.providers.insert schema provider } })
  else
    (false, { w.leave done.1.conn with
      entry := if done.2.providers = ∅ then none else some done.2
      bound := Function.update w.bound provider false })

/-- `unregister_provider`: whether it raised, and what it left. -/
def unregisterProvider (w : Registrar) (schema : String) (provider : Nat) : Bool × Registrar :=
  match w.entry with
  | none => (true, w)
  | some b =>
    if w.bound provider = false ∨ b.providers.lookup schema ≠ some provider then (true, w)
    else
      finishUnregister w schema provider ((b.without schema).detach implemented ch w.conn)

end Calls

/-- A call. -/
inductive Request where
  | register (schema : String) (provider : Nat)
  | unregister (schema : String) (provider : Nat)

/-- A call with what the world decides during it. -/
structure Call where
  request : Request
  choices : Choices

/-- What a call does: whether it raised, and what it left. -/
def Registrar.call (implemented : Nat → Finset Op) (w : Registrar) (l : Call) : Bool × Registrar :=
  match l.request with
  | .register schema provider => registerProvider implemented l.choices w schema provider
  | .unregister schema provider => unregisterProvider implemented l.choices w schema provider

/-- The calls on one connection and catalog. -/
def registration (implemented : Nat → Finset Op) : Machine Registrar Call :=
  ⟨fun w l => some (w.call implemented l).2⟩

/-! ### Atomic calls -/

/-- The providers of the binding. -/
def Registrar.providers (w : Registrar) : Finmap fun _ : String => Nat :=
  (w.entry.map Binding.providers).getD ∅

/-- The extension holds registered functions only, and the binding tracks each of them. -/
structure Registrar.Consistent (w : Registrar) : Prop where
  held : ∀ names ∈ w.held, names ⊆ w.functions
  tracked : ∀ f ∈ w.functions, ∃ b ∈ w.entry, f ∈ b.names b.registeredOps

/-- The call leaves a consistent state, and if it raised, the providers and the functions as they
were. -/
structure Registrar.Atomic (implemented : Nat → Finset Op) (w : Registrar) (l : Call) : Prop where
  consistent : (w.call implemented l).2.Consistent
  unchanged : (w.call implemented l).1 = true →
    (w.call implemented l).2.providers = w.providers ∧
      (w.call implemented l).2.functions = w.functions

/-- None of `n` DuckDB calls fails, from the `m`-th on. -/
def Choices.GoesWell (ch : Choices) (m n : Nat) : Prop := ∀ i < n, ch.fails (m + i) = false

/-- How many functions `sync` changes. -/
def Binding.changeCount (b : Binding) (wanted : Finset Op) : Nat :=
  (wanted \ b.registeredOps).card + (b.registeredOps \ wanted).card

/-- The DuckDB calls that fail do no harm: none does, or the first change of a function, or the call
changes no function.  A first registration may also fail at its last call, if the functions can be
removed again; a last unregistration at its first two. -/
def Undisturbed (implemented : Nat → Finset Op) (w : Registrar) (l : Call) : Prop :=
  match l.request with
  | .register schema provider =>
    let b := w.joined schema provider
    let n := b.changeCount (b.wanted implemented)
    schema ∈ w.object.providers ∨ n = 0 ∨ l.choices.fails 0 = true ∨ l.choices.GoesWell 0 (n + 1) ∨
      (w.entry = none ∧ l.choices.GoesWell 0 n ∧ l.choices.fails n = true ∧
        l.choices.GoesWell (n + 1) (b.wanted implemented).card)
  | .unregister schema provider =>
    ∀ b ∈ w.entry, w.bound provider = true → b.providers.lookup schema = some provider →
      let b := b.without schema
      let n := b.changeCount (b.wanted implemented)
      if b.providers = ∅ then
        w.held = none ∨ l.choices.fails 0 = true ∨ l.choices.fails 1 = true ∨
          l.choices.GoesWell 0 (b.registeredOps.card + 1)
      else n = 0 ∨ l.choices.fails 0 = true ∨ l.choices.GoesWell 0 (n + 2)

/-! ### Iterating over operations -/

namespace Order

variable (o : Order) (s : Finset Op)

@[simp] theorem mem_of {op : Op} : op ∈ o.of s ↔ op ∈ s := by
  simp [Order.of, o.complete op]

@[simp] theorem toFinset_of : (o.of s).toFinset = s := by
  ext op
  simp

@[simp] theorem length_of : (o.of s).length = s.card := by
  conv_rhs => rw [← o.toFinset_of s]
  exact (List.toFinset_card_of_nodup (o.nodup.filter _)).symm

end Order

/-! ### Some DuckDB calls after each other -/

section Perform

variable {fails : Nat → Bool} {c : Connection}

theorem perform_append (xs ys : List DuckCall) (c : Connection) :
    perform fails (xs ++ ys) c =
      if (perform fails xs c).raised then perform fails xs c
      else perform fails ys (perform fails xs c).conn := by
  induction xs generalizing c with
  | nil => simp [perform]
  | cons d xs ih =>
    rw [List.cons_append, perform, perform]
    by_cases hd : (fails c.made || d.refused c) = true
    · simp only [if_pos hd, if_true]
    · simp only [if_neg hd]
      exact ih _

theorem perform_head_fails {d : DuckCall} {ds : List DuckCall} (h : fails c.made = true) :
    perform fails (d :: ds) c = ⟨true, c.count⟩ := by
  simp [perform, h]

/-- Functions that are created, one after the other. -/
theorem perform_create {probeId : Nat} (ops : List Op)
    (h : ∀ i < ops.length, fails (c.made + i) = false) :
    perform fails (ops.map fun op => .createFunction ⟨probeId, op⟩) c =
      ⟨false, { c with
        functions := c.functions ∪ ops.toFinset.image (Udf.mk probeId)
        made := c.made + ops.length }⟩ := by
  induction ops generalizing c with
  | nil => simp [perform]
  | cons op ops ih =>
    have h0 : fails c.made = false := h 0 (by simp)
    rw [List.map_cons, perform, h0, if_neg (by simp [DuckCall.refused]), ih]
    · simp only [DuckCall.effect, Connection.count, List.toFinset_cons, Finset.image_insert,
        List.length_cons, Finset.insert_union, Finset.union_insert]
      congr 2
      omega
    · intro i hi
      have := h (i + 1) (by simpa using hi)
      simpa [DuckCall.effect, Connection.count, Nat.add_comm, Nat.add_left_comm] using this

/-- Functions that are removed, one after the other. -/
theorem perform_remove {probeId : Nat} (ops : List Op)
    (h : ∀ i < ops.length, fails (c.made + i) = false) :
    perform fails (ops.map fun op => .removeFunction ⟨probeId, op⟩) c =
      ⟨false, { c with
        functions := c.functions \ ops.toFinset.image (Udf.mk probeId)
        made := c.made + ops.length }⟩ := by
  induction ops generalizing c with
  | nil => simp [perform]
  | cons op ops ih =>
    have h0 : fails c.made = false := h 0 (by simp)
    rw [List.map_cons, perform, h0, if_neg (by simp [DuckCall.refused]), ih]
    · simp only [DuckCall.effect, Connection.count, List.toFinset_cons, Finset.image_insert,
        List.length_cons]
      congr 2
      · ext f
        simp only [Finset.mem_sdiff, Finset.mem_erase, Finset.mem_insert, not_or]
        tauto
      · omega
    · intro i hi
      have := h (i + 1) (by simpa using hi)
      simpa [DuckCall.effect, Connection.count, Nat.add_comm, Nat.add_left_comm] using this

end Perform

/-! ### Synchronizing a binding -/

section Sync

variable {implemented : Nat → Finset Op} {ch : Choices} {b : Binding} {c : Connection}
  {wanted : Finset Op}

theorem changes_length (order : Order) :
    (b.changes order wanted).length = b.changeCount wanted := by
  simp [Binding.changes, Binding.changeCount]

/-- Changing every function makes the functions those that are wanted. -/
theorem names_changed :
    (b.names b.registeredOps ∪ (wanted \ b.registeredOps).image (Udf.mk b.probeId)) \
        (b.registeredOps \ wanted).image (Udf.mk b.probeId) = b.names wanted := by
  ext ⟨probeId, op⟩
  simp only [Binding.names, Finset.mem_sdiff, Finset.mem_union, Finset.mem_image, Udf.mk.injEq]
  constructor
  · rintro ⟨⟨op', hop, rfl, rfl⟩ | ⟨op', hop, rfl, rfl⟩, hno⟩
    · by_contra hw
      exact hno ⟨op', ⟨hop, fun h => hw ⟨op', h, rfl, rfl⟩⟩, rfl, rfl⟩
    · exact ⟨op', hop.1, rfl, rfl⟩
  · rintro ⟨op', hop, rfl, rfl⟩
    refine ⟨?_, ?_⟩
    · by_cases hr : op' ∈ b.registeredOps
      · exact .inl ⟨op', hr, rfl, rfl⟩
      · exact .inr ⟨op', ⟨hop, hr⟩, rfl, rfl⟩
    · rintro ⟨op'', hop'', -, rfl⟩
      exact hop''.2 hop

theorem perform_changes (hfun : c.functions = b.names b.registeredOps)
    (hwell : ch.GoesWell c.made (b.changeCount wanted)) :
    perform ch.fails (b.changes ch.order wanted) c =
      ⟨false, { c with functions := b.names wanted, made := c.made + b.changeCount wanted }⟩ := by
  have hcreate : ∀ i < (ch.order.of (wanted \ b.registeredOps)).length,
      ch.fails (c.made + i) = false := by
    intro i hi
    rw [Order.length_of] at hi
    exact hwell i (by unfold Binding.changeCount; omega)
  rw [Binding.changes, perform_append, perform_create _ hcreate]
  simp only [Bool.false_eq_true, if_false]
  rw [perform_remove]
  · simp only [Order.toFinset_of, Order.length_of, hfun, names_changed, Binding.changeCount,
      Nat.add_assoc]
  · intro i hi
    rw [Order.length_of] at hi ⊢
    have := hwell ((wanted \ b.registeredOps).card + i) (by unfold Binding.changeCount; omega)
    simpa only [Nat.add_assoc] using this

theorem sync_eq : b.sync implemented ch c =
    if (perform ch.fails (b.changes ch.order (b.wanted implemented)) c).raised then
      (perform ch.fails (b.changes ch.order (b.wanted implemented)) c, b)
    else
      (perform ch.fails [.register (b.names (b.wanted implemented))]
          (perform ch.fails (b.changes ch.order (b.wanted implemented)) c).conn,
        { b with registeredOps := b.wanted implemented }) := rfl

/-- Nothing fails. -/
theorem sync_ok (hfun : c.functions = b.names b.registeredOps)
    (hwell : ch.GoesWell c.made (b.changeCount (b.wanted implemented) + 1)) :
    b.sync implemented ch c = (⟨false,
      ⟨b.names (b.wanted implemented), some (b.names (b.wanted implemented)),
        c.made + b.changeCount (b.wanted implemented) + 1⟩⟩,
      { b with registeredOps := b.wanted implemented }) := by
  have hlast := hwell _ (Nat.lt_succ_self _)
  rw [sync_eq, perform_changes hfun fun i hi => hwell i (by omega)]
  simp [perform, hlast, DuckCall.refused, DuckCall.effect, Connection.count]

/-- The functions are changed, and the extension is not told. -/
theorem sync_register_fails (hfun : c.functions = b.names b.registeredOps)
    (hwell : ch.GoesWell c.made (b.changeCount (b.wanted implemented)))
    (hfails : ch.fails (c.made + b.changeCount (b.wanted implemented)) = true) :
    b.sync implemented ch c = (⟨true,
      ⟨b.names (b.wanted implemented), c.held,
        c.made + b.changeCount (b.wanted implemented) + 1⟩⟩,
      { b with registeredOps := b.wanted implemented }) := by
  rw [sync_eq, perform_changes hfun hwell]
  simp [perform, hfails, Connection.count]

/-- The first change of a function fails. -/
theorem sync_first_fails (hn : b.changeCount (b.wanted implemented) ≠ 0)
    (hfails : ch.fails c.made = true) : b.sync implemented ch c = (⟨true, c.count⟩, b) := by
  rw [sync_eq]
  cases hds : b.changes ch.order (b.wanted implemented) with
  | nil =>
    have hlen : (b.changes ch.order (b.wanted implemented)).length = _ := changes_length _
    rw [hds] at hlen
    exact absurd hlen.symm hn
  | cons d ds =>
    rw [perform_head_fails hfails]
    rfl

/-- No function is to be changed. -/
theorem sync_unchanged (hn : b.changeCount (b.wanted implemented) = 0) :
    b.sync implemented ch c = (⟨ch.fails c.made,
      if ch.fails c.made then c.count
      else ⟨c.functions, some (b.names b.registeredOps), c.made + 1⟩⟩, b) := by
  have hsame : b.wanted implemented = b.registeredOps := by
    have h := Nat.add_eq_zero_iff.1 hn
    exact Finset.Subset.antisymm (Finset.sdiff_eq_empty_iff_subset.1 (Finset.card_eq_zero.1 h.1))
      (Finset.sdiff_eq_empty_iff_subset.1 (Finset.card_eq_zero.1 h.2))
  have hnil : b.changes ch.order (b.wanted implemented) = [] :=
    List.length_eq_zero_iff.1 ((changes_length ch.order).trans hn)
  rw [sync_eq, hnil, hsame]
  cases hf : ch.fails c.made <;>
    simp [perform, hf, DuckCall.refused, DuckCall.effect, Connection.count]

end Sync

/-! ### The calls -/

/-- The invariant: the functions are those of the binding, which has a provider, and the extension
holds none but them. -/
structure Registrar.Ok (w : Registrar) : Prop where
  functions : w.functions = (w.entry.map fun b => b.names b.registeredOps).getD ∅
  held : ∀ names ∈ w.held, names ⊆ w.functions
  bound : ∀ b ∈ w.entry, b.providers ≠ ∅

theorem Registrar.Ok.consistent {w : Registrar} (h : w.Ok) : w.Consistent := by
  refine ⟨h.held, fun f hf => ?_⟩
  rw [h.functions] at hf
  cases he : w.entry with
  | none => simp [he] at hf
  | some b => exact ⟨b, rfl, by simpa [he] using hf⟩

/-- The call keeps the invariant, and what it must not change if it raised. -/
structure Registrar.Keeps (w : Registrar) (r : Bool × Registrar) : Prop where
  ok : r.2.Ok
  unchanged : r.1 = true → r.2.providers = w.providers ∧ r.2.functions = w.functions

theorem erase_insert {m : Finmap fun _ : String => Nat} {schema : String} {p : Nat}
    (h : schema ∉ m) : (m.insert schema p).erase schema = m := by
  apply Finmap.ext_lookup
  intro x
  by_cases hx : x = schema
  · subst hx
    rw [Finmap.lookup_erase, Finmap.lookup_eq_none.2 h]
  · rw [Finmap.lookup_erase_ne hx, Finmap.lookup_insert_of_ne _ hx]

theorem insert_erase {m : Finmap fun _ : String => Nat} {schema : String} {p : Nat}
    (h : m.lookup schema = some p) : (m.erase schema).insert schema p = m := by
  apply Finmap.ext_lookup
  intro x
  by_cases hx : x = schema
  · subst hx
    rw [Finmap.lookup_insert, h]
  · rw [Finmap.lookup_insert_of_ne _ hx, Finmap.lookup_erase_ne hx]

theorem insert_ne_empty {m : Finmap fun _ : String => Nat} {schema : String} {p : Nat} :
    m.insert schema p ≠ ∅ := by
  intro h
  have := Finmap.lookup_insert (a := schema) (b := p) m
  rw [h, Finmap.lookup_empty] at this
  cases this

section Steps

variable {implemented : Nat → Finset Op} {ch : Choices} {w : Registrar} {schema : String}
  {provider : Nat} {c : Connection} {b b' : Binding}

/-- The binding of a registration, and its functions, before anything is changed. -/
theorem Registrar.Ok.object (hw : w.Ok) :
    w.conn.functions = w.object.names w.object.registeredOps := by
  show w.functions = _
  rw [hw.functions, Registrar.object]
  cases w.entry with
  | none => rfl
  | some b => rfl

/-- A registration whose `sync` ended well. -/
theorem keeps_registered {w' : Registrar} (hfun : c.functions = b.names b.registeredOps)
    (hheld : ∀ names ∈ c.held, names ⊆ c.functions) (hb : b.providers ≠ ∅) :
    w.Keeps (finishRegister ch w' schema provider (⟨false, c⟩, b)) := by
  refine ⟨⟨hfun, hheld, ?_⟩, nofun⟩
  rintro _ ⟨⟩
  exact hb

/-- A registration that raised before it changed a function. -/
theorem Registrar.Ok.keeps_unregistered (hw : w.Ok) (hs : schema ∉ w.object.providers)
    (hfun : c.functions = w.functions) (hheld : c.held = w.held) :
    w.Keeps (finishRegister ch w.constructed schema provider (⟨true, c⟩,
      w.joined schema provider)) := by
  have herase := erase_insert (p := provider) hs
  -- the schema joined and left again
  cases he : w.entry with
  | none =>
    have hobj : w.object = { probeId := w.nextProbe } := by simp [Registrar.object, he]
    have hempty : w.functions = ∅ := by rw [hw.functions, he]; rfl
    have hnil : ch.repairOrder.of ∅ = [] :=
      List.length_eq_zero_iff.1 (by rw [Order.length_of]; rfl)
    have hundo : undoRegister ch w.constructed schema provider c (w.joined schema provider) =
        { w.constructed.leave c with
          entry := none, bound := Function.update w.bound provider false } := by
      unfold undoRegister Registrar.joined Binding.without
      dsimp only
      rw [herase, hobj, if_pos rfl]
      dsimp only
      rw [hnil]
      rfl
    refine ⟨?_, fun _ => ?_⟩
    · show (undoRegister ch w.constructed schema provider c _).Ok
      rw [hundo]
      refine ⟨hfun.trans hempty, fun names hn => ?_, nofun⟩
      show names ⊆ c.functions
      rw [hfun]
      exact hw.held names (hheld ▸ hn)
    · show (undoRegister ch w.constructed schema provider c _).providers = _ ∧
        (undoRegister ch w.constructed schema provider c _).functions = _
      rw [hundo]
      exact ⟨by simp [Registrar.providers, he], hfun⟩
  | some b₀ =>
    have hobj : w.object = b₀ := by simp [Registrar.object, he]
    have hne : b₀.providers ≠ ∅ := hw.bound b₀ he
    have hundo : undoRegister ch w.constructed schema provider c (w.joined schema provider) =
        { w.constructed.leave c with
          entry := some b₀, bound := Function.update w.bound provider false } := by
      unfold undoRegister Registrar.joined Binding.without
      dsimp only
      rw [herase, hobj, if_neg hne]
      simp [Registrar.leave, Registrar.constructed, he]
    refine ⟨?_, fun _ => ?_⟩
    · show (undoRegister ch w.constructed schema provider c _).Ok
      rw [hundo]
      refine ⟨hfun.trans (by rw [hw.functions, he]), fun names hn => ?_, ?_⟩
      · show names ⊆ c.functions
        rw [hfun]
        exact hw.held names (hheld ▸ hn)
      · rintro _ ⟨⟩
        exact hne
    · show (undoRegister ch w.constructed schema provider c _).providers = _ ∧
        (undoRegister ch w.constructed schema provider c _).functions = _
      rw [hundo]
      exact ⟨by simp [Registrar.providers, he], hfun⟩

/-- A first registration that the extension refused, and whose functions are removed again. -/
theorem Registrar.Ok.keeps_repaired (hw : w.Ok) (he : w.entry = none) {ops : Finset Op}
    (hfun : c.functions = w.object.names ops) (hheld : c.held = w.held)
    (hwell : ch.GoesWell c.made ops.card) :
    w.Keeps (finishRegister ch w.constructed schema provider (⟨true, c⟩,
      ⟨w.nextProbe, (∅ : Finmap _).insert schema provider, ops⟩)) := by
  have hobj : w.object = { probeId := w.nextProbe } := by simp [Registrar.object, he]
  have hempty : w.functions = ∅ := by rw [hw.functions, he]; rfl
  have hremove : perform ch.fails
      ((ch.repairOrder.of ops).map fun op => .removeFunction ⟨w.nextProbe, op⟩) c =
      ⟨false, ⟨∅, w.held, c.made + ops.card⟩⟩ := by
    rw [perform_remove _ (by rw [Order.length_of]; exact hwell)]
    simp [hfun, hobj, hheld, Binding.names]
  have hundo : undoRegister ch w.constructed schema provider c
      ⟨w.nextProbe, (∅ : Finmap _).insert schema provider, ops⟩ =
      { w.constructed with
        entry := none, functions := ∅, bound := Function.update w.bound provider false } := by
    unfold undoRegister Binding.without
    dsimp only
    rw [erase_insert Finmap.notMem_empty, if_pos rfl, hremove]
    rfl
  refine ⟨?_, fun _ => ?_⟩
  · show (undoRegister ch w.constructed schema provider c _).Ok
    rw [hundo]
    exact ⟨rfl, fun names hn => hempty ▸ hw.held names hn, nofun⟩
  · show (undoRegister ch w.constructed schema provider c _).providers = _ ∧
      (undoRegister ch w.constructed schema provider c _).functions = _
    rw [hundo]
    exact ⟨by simp [Registrar.providers, he], hempty.symm⟩

/-- **Step lemma** of `register_provider`. -/
theorem Registrar.Ok.registerProvider (hw : w.Ok)
    (hc : Undisturbed implemented w ⟨.register schema provider, ch⟩) :
    w.Keeps (registerProvider implemented ch w schema provider) := by
  unfold Provider.registerProvider
  by_cases hs : schema ∈ w.object.providers
  · rw [if_pos hs]
    exact ⟨⟨hw.functions, hw.held, hw.bound⟩, fun _ => ⟨rfl, rfl⟩⟩
  · rw [if_neg hs]
    have hfun : w.conn.functions =
        (w.joined schema provider).names (w.joined schema provider).registeredOps := hw.object
    have hjoined : (w.joined schema provider).providers ≠ ∅ := insert_ne_empty
    dsimp only [Undisturbed] at hc
    generalize hb : w.joined schema provider = b at hc hfun hjoined
    by_cases hn : b.changeCount (b.wanted implemented) = 0
    · rw [sync_unchanged hn]
      cases hf : ch.fails w.conn.made with
      | true =>
        subst hb
        exact hw.keeps_unregistered hs rfl rfl
      | false =>
        refine keeps_registered hfun ?_ hjoined
        rintro _ ⟨⟩
        exact hfun.symm.subset
    · rcases hc with hknown | hn' | hfirst | hwell | ⟨he, hwell, hlast, hrepair⟩
      · exact absurd hknown hs
      · exact absurd hn' hn
      · rw [sync_first_fails hn hfirst]
        subst hb
        exact hw.keeps_unregistered hs rfl rfl
      · rw [sync_ok hfun hwell]
        refine keeps_registered rfl ?_ hjoined
        rintro _ ⟨⟩
        exact Finset.Subset.refl _
      · have hlast' : ch.fails (w.conn.made + b.changeCount (b.wanted implemented)) = true := by
          rw [show w.conn.made = 0 from rfl, Nat.zero_add]
          exact hlast
        have hrepair' : ch.GoesWell
            (w.conn.made + b.changeCount (b.wanted implemented) + 1)
            (b.wanted implemented).card := by
          rw [show w.conn.made = 0 from rfl, Nat.zero_add]
          exact hrepair
        rw [sync_register_fails hfun hwell hlast']
        have hobj : w.object = { probeId := w.nextProbe } := by simp [Registrar.object, he]
        have hnew : b = ⟨w.nextProbe, (∅ : Finmap _).insert schema provider, ∅⟩ := by
          rw [← hb, Registrar.joined, hobj]
        rw [hnew] at hrepair' ⊢
        exact hw.keeps_repaired he (by rw [hobj]; rfl) rfl hrepair'

/-! ### Unregistering -/

theorem close_eq : b.close ch c =
    if (perform ch.fails [.unregister] c).raised then (perform ch.fails [.unregister] c, b)
    else
      (perform ch.fails
          ((ch.order.of b.registeredOps).map fun op => .removeFunction ⟨b.probeId, op⟩)
          (perform ch.fails [.unregister] c).conn,
        if (perform ch.fails
            ((ch.order.of b.registeredOps).map fun op => .removeFunction ⟨b.probeId, op⟩)
            (perform ch.fails [.unregister] c).conn).raised then b
        else { b with registeredOps := ∅ }) := rfl

/-- The extension is not told, or refuses. -/
theorem close_first_fails (h : c.held = none ∨ ch.fails c.made = true) :
    b.close ch c = (⟨true, c.count⟩, b) := by
  have hraise : perform ch.fails [.unregister] c = ⟨true, c.count⟩ := by
    have : (ch.fails c.made || DuckCall.refused c .unregister) = true := by
      rcases h with h | h <;> simp [DuckCall.refused, h]
    rw [perform, if_pos this]
  rw [close_eq, hraise, if_pos rfl]

/-- The extension forgot the catalog. -/
theorem perform_unregister (hheld : c.held ≠ none) (h : ch.fails c.made = false) :
    perform ch.fails [.unregister] c = ⟨false, ⟨c.functions, none, c.made + 1⟩⟩ := by
  have hsome : c.held.isNone = false := by
    simpa [Option.isSome_iff_ne_none] using hheld
  simp [perform, h, DuckCall.refused, hsome, DuckCall.effect, Connection.count]

/-- The first function cannot be removed. -/
theorem close_second_fails (hheld : c.held ≠ none) (h : ch.fails c.made = false)
    (hne : b.registeredOps ≠ ∅) (hfails : ch.fails (c.made + 1) = true) :
    b.close ch c = (⟨true, ⟨c.functions, none, c.made + 2⟩⟩, b) := by
  rw [close_eq, perform_unregister hheld h]
  cases hops : ch.order.of b.registeredOps with
  | nil =>
    have := congrArg List.toFinset hops
    rw [Order.toFinset_of] at this
    exact absurd this hne
  | cons op ops =>
    rw [List.map_cons, if_neg (by simp), perform_head_fails hfails]
    rfl

/-- Every function is removed. -/
theorem close_ok (hheld : c.held ≠ none) (hfun : c.functions = b.names b.registeredOps)
    (hwell : ch.GoesWell c.made (b.registeredOps.card + 1)) :
    b.close ch c = (⟨false, ⟨∅, none, c.made + 1 + b.registeredOps.card⟩⟩,
      { b with registeredOps := ∅ }) := by
  have h0 : ch.fails c.made = false := hwell 0 (by omega)
  rw [close_eq, perform_unregister hheld h0, perform_remove]
  · simp [hfun, Binding.names]
  · intro i hi
    rw [Order.length_of] at hi
    have := hwell (i + 1) (by omega)
    simpa only [Nat.add_assoc, Nat.add_comm 1 i] using this

/-- A call that raised before it changed a function. -/
theorem Registrar.Ok.keeps_bound (hw : w.Ok) (he : w.entry = some b)
    (hp : b.providers.lookup schema = some provider) (hfun : c.functions = w.functions)
    (hheld : ∀ names ∈ c.held, names ⊆ w.functions) :
    w.Keeps (finishUnregister w schema provider (⟨true, c⟩, b.without schema)) := by
  have hentry : (some { b with providers := (b.providers.erase schema).insert schema provider } :
      Option Binding) = w.entry := by
    rw [insert_erase hp, he]
  unfold finishUnregister Binding.without
  dsimp only
  rw [if_pos rfl, hentry]
  refine ⟨⟨?_, ?_, hw.bound⟩, fun _ => ⟨rfl, hfun⟩⟩
  · exact hfun.trans hw.functions
  · intro names hn
    show names ⊆ c.functions
    rw [hfun]
    exact hheld names hn

/-- A call whose `try` clause ended well. -/
theorem keeps_unbound (hfun : c.functions = b.names b.registeredOps)
    (hheld : ∀ names ∈ c.held, names ⊆ c.functions)
    (hempty : b.providers = ∅ → b.registeredOps = ∅) :
    w.Keeps (finishUnregister w schema provider (⟨false, c⟩, b)) := by
  unfold finishUnregister
  dsimp only
  rw [if_neg (by simp)]
  refine ⟨⟨?_, hheld, ?_⟩, nofun⟩
  · show c.functions = _
    split_ifs with hb
    · rw [hfun, hempty hb]
      rfl
    · exact hfun
  · intro b' hb'
    dsimp only at hb'
    split_ifs at hb' with hb
    · cases hb'
    · cases hb'
      exact hb

/-- The last provider: the extension forgets the catalog, and the functions go. -/
theorem Registrar.Ok.keeps_closed (hw : w.Ok) (he : w.entry = some b)
    (hp : b.providers.lookup schema = some provider)
    (hc : w.held = none ∨ ch.fails 0 = true ∨ ch.fails 1 = true ∨
      ch.GoesWell 0 (b.registeredOps.card + 1)) :
    w.Keeps (finishUnregister w schema provider ((b.without schema).close ch w.conn)) := by
  have hfun : w.conn.functions = (b.without schema).names (b.without schema).registeredOps := by
    show w.functions = _
    rw [hw.functions, he]
    rfl
  by_cases hfirst : w.conn.held = none ∨ ch.fails w.conn.made = true
  · rw [close_first_fails hfirst]
    exact hw.keeps_bound he hp rfl hw.held
  · rw [not_or, Bool.not_eq_true] at hfirst
    by_cases hsecond :
        (b.without schema).registeredOps ≠ ∅ ∧ ch.fails (w.conn.made + 1) = true
    · rw [close_second_fails hfirst.1 hfirst.2 hsecond.1 hsecond.2]
      exact hw.keeps_bound he hp rfl nofun
    · have hwell : ch.GoesWell w.conn.made (b.registeredOps.card + 1) := by
        rcases hc with h | h | h | h
        · exact absurd h hfirst.1
        · rw [show ch.fails 0 = false from hfirst.2] at h
          cases h
        · have hnone : b.registeredOps = ∅ := by
            by_contra hne
            exact hsecond ⟨hne, h⟩
          intro i hi
          rw [hnone] at hi
          obtain rfl : i = 0 := by simpa using hi
          exact hfirst.2
        · exact h
      rw [close_ok hfirst.1 hfun hwell]
      exact keeps_unbound rfl nofun fun _ => rfl

theorem detach_eq (hb : b.providers ≠ ∅) : b.detach implemented ch c =
    if (b.sync implemented ch c).1.raised then b.sync implemented ch c
    else (perform ch.fails [.invalidate] (b.sync implemented ch c).1.conn,
      (b.sync implemented ch c).2) := by
  rw [Binding.detach, if_neg hb]

/-- The extension lists anew, unless the call fails. -/
theorem perform_invalidate (hheld : c.held ≠ none) :
    perform ch.fails [.invalidate] c = ⟨ch.fails c.made, c.count⟩ := by
  have hsome : c.held.isNone = false := by
    simpa [Option.isSome_iff_ne_none] using hheld
  cases hf : ch.fails c.made <;> simp [perform, hf, DuckCall.refused, hsome, DuckCall.effect]

/-- One provider of several. -/
theorem Registrar.Ok.keeps_detached (hw : w.Ok) (he : w.entry = some b)
    (hp : b.providers.lookup schema = some provider) (hrest : (b.without schema).providers ≠ ∅)
    (hc : (b.without schema).changeCount ((b.without schema).wanted implemented) = 0 ∨
      ch.fails 0 = true ∨
      ch.GoesWell 0
        ((b.without schema).changeCount ((b.without schema).wanted implemented) + 2)) :
    w.Keeps (finishUnregister w schema provider
      ((b.without schema).detach implemented ch w.conn)) := by
  have hfun : w.conn.functions = (b.without schema).names (b.without schema).registeredOps := by
    show w.functions = _
    rw [hw.functions, he]
    rfl
  rw [detach_eq hrest]
  by_cases hn : (b.without schema).changeCount ((b.without schema).wanted implemented) = 0
  · rw [sync_unchanged hn]
    cases hf : ch.fails w.conn.made with
    | true => exact hw.keeps_bound he hp rfl hw.held
    | false =>
      dsimp only
      rw [if_neg (by simp), if_neg (by simp), perform_invalidate (by simp)]
      have hheld : ∀ names ∈ some ((b.without schema).names (b.without schema).registeredOps),
          names ⊆ w.conn.functions := by
        rintro _ ⟨⟩
        exact hfun.symm.subset
      cases ch.fails (w.conn.made + 1) with
      | true => exact hw.keeps_bound he hp rfl hheld
      | false => exact keeps_unbound hfun hheld fun h => absurd h hrest
  · rcases hc with h | h | hwell
    · exact absurd h hn
    · rw [sync_first_fails hn h]
      exact hw.keeps_bound he hp rfl hw.held
    · rw [sync_ok hfun fun i hi => hwell i (by omega)]
      dsimp only
      rw [if_neg (by simp), perform_invalidate (by simp)]
      have hlast := hwell _ (Nat.lt_succ_self _)
      have hmade : ch.fails (w.conn.made +
          (b.without schema).changeCount ((b.without schema).wanted implemented) + 1) = false := by
        rw [Nat.add_assoc]
        exact hlast
      rw [hmade]
      refine keeps_unbound rfl ?_ fun h => absurd h hrest
      rintro _ ⟨⟩
      exact Finset.Subset.refl _

/-- **Step lemma** of `unregister_provider`. -/
theorem Registrar.Ok.unregisterProvider (hw : w.Ok)
    (hc : Undisturbed implemented w ⟨.unregister schema provider, ch⟩) :
    w.Keeps (unregisterProvider implemented ch w schema provider) := by
  unfold Provider.unregisterProvider
  cases he : w.entry with
  | none => exact ⟨hw, fun _ => ⟨rfl, rfl⟩⟩
  | some b =>
    dsimp only
    by_cases hknown : w.bound provider = false ∨ b.providers.lookup schema ≠ some provider
    · rw [if_pos hknown]
      exact ⟨hw, fun _ => ⟨rfl, rfl⟩⟩
    · rw [if_neg hknown]
      rw [not_or, Bool.not_eq_false, not_not] at hknown
      obtain ⟨hbound, hp⟩ := hknown
      have hcond := hc b he hbound hp
      dsimp only at hcond
      by_cases hlast : (b.without schema).providers = ∅
      · rw [if_pos hlast] at hcond
        rw [Binding.detach, if_pos hlast]
        exact hw.keeps_closed he hp hcond
      · rw [if_neg hlast] at hcond
        exact hw.keeps_detached he hp hlast hcond

end Steps

/-! ### What a failed call leaves -/

/-- The function that a DuckDB call creates or removes. -/
def DuckCall.udf? : DuckCall → Option Udf
  | createFunction f => some f
  | removeFunction f => some f
  | _ => none

section Disturbed

variable {implemented : Nat → Finset Op} {ch : Choices} {fails : Nat → Bool} {c : Connection}
  {b : Binding} {wanted : Finset Op} {f : Udf} {d : DuckCall} {ds : List DuckCall}

theorem mem_effect (h : d.udf? ≠ some f) : f ∈ (d.effect c).functions ↔ f ∈ c.functions := by
  cases d with
  | createFunction g =>
    have hne : f ≠ g := fun e => h (by rw [e]; rfl)
    simp [DuckCall.effect, hne]
  | removeFunction g =>
    have hne : f ≠ g := fun e => h (by rw [e]; rfl)
    simp [DuckCall.effect, hne]
  | _ => rfl

/-- A function that no call is about stays as it is. -/
theorem mem_perform (h : ∀ d ∈ ds, d.udf? ≠ some f) :
    f ∈ (perform fails ds c).conn.functions ↔ f ∈ c.functions := by
  induction ds generalizing c with
  | nil => rfl
  | cons d ds ih =>
    unfold perform
    split_ifs
    · rfl
    · rw [ih fun d' hd' => h d' (List.mem_cons_of_mem _ hd'), mem_effect (h d List.mem_cons_self)]
      rfl

/-- A call that fails in the middle raises. -/
theorem perform_raised (h : ∃ i < ds.length, fails (c.made + i) = true) :
    (perform fails ds c).raised = true := by
  induction ds generalizing c with
  | nil =>
    obtain ⟨i, hi, -⟩ := h
    cases hi
  | cons d ds ih =>
    unfold perform
    split_ifs with hd
    · rfl
    · obtain ⟨i, hi, hf⟩ := h
      rw [Bool.or_eq_true, not_or] at hd
      cases i with
      | zero => exact absurd hf hd.1
      | succ i =>
        refine ih ⟨i, by simpa using hi, ?_⟩
        have hmade : (d.effect c.count).made = c.made + 1 := by cases d <;> rfl
        rw [hmade, Nat.add_assoc, Nat.add_comm 1 i]
        exact hf

/-- Changes of different functions that the connection does not have yet, or still has. -/
structure Moves (c : Connection) (ds : List DuckCall) : Prop where
  distinct : (ds.map DuckCall.udf?).Nodup
  flips : ∀ d ∈ ds, ∃ f, (d = .createFunction f ∧ f ∉ c.functions) ∨
    (d = .removeFunction f ∧ f ∈ c.functions)

/-- Once the first change is made, the functions stay different. -/
theorem Moves.perform_ne (h : Moves c ds) (hne : ds ≠ []) (hfirst : fails c.made = false)
    {more : List DuckCall} (hmore : ∀ d ∈ more, d.udf? = none) :
    (perform fails (ds ++ more) c).conn.functions ≠ c.functions := by
  obtain ⟨d, ds, rfl⟩ := List.exists_cons_of_ne_nil hne
  obtain ⟨hd, -⟩ := List.nodup_cons.1 h.distinct
  obtain ⟨f, hf⟩ := h.flips d List.mem_cons_self
  have hudf : d.udf? = some f := by rcases hf with ⟨rfl, -⟩ | ⟨rfl, -⟩ <;> rfl
  have href : d.refused c = false := by rcases hf with ⟨rfl, -⟩ | ⟨rfl, -⟩ <;> rfl
  have hflip : f ∈ (d.effect c.count).functions ↔ f ∉ c.functions := by
    rcases hf with ⟨rfl, hf⟩ | ⟨rfl, hf⟩ <;> simp [DuckCall.effect, Connection.count, hf]
  have hrest : ∀ d' ∈ ds ++ more, d'.udf? ≠ some f := by
    intro d' hd' he
    rcases List.mem_append.1 hd' with hd' | hd'
    · exact hd (List.mem_map.2 ⟨d', hd', he.trans hudf.symm⟩)
    · rw [hmore d' hd'] at he
      cases he
  intro heq
  have hmem : f ∈ (perform fails (d :: ds ++ more) c).conn.functions ↔ f ∉ c.functions := by
    rw [List.cons_append, perform, hfirst, href, if_neg (by simp), mem_perform hrest, hflip]
  rw [heq] at hmem
  exact iff_not_self hmem

theorem moves_changes (hfun : c.functions = b.names b.registeredOps) (order : Order) :
    Moves c (b.changes order wanted) := by
  have hmem : ∀ op, (⟨b.probeId, op⟩ : Udf) ∈ c.functions ↔ op ∈ b.registeredOps := by
    simp [hfun, Binding.names]
  refine ⟨?_, fun d hd => ?_⟩
  · have hmap : (b.changes order wanted).map DuckCall.udf? =
        (order.of (wanted \ b.registeredOps) ++ order.of (b.registeredOps \ wanted)).map
          fun op => some ⟨b.probeId, op⟩ := by
      simp [Binding.changes, Function.comp_def, DuckCall.udf?]
    rw [hmap]
    refine List.Nodup.map (fun op op' h => by simpa using h) ?_
    refine List.Nodup.append (order.nodup.filter _) (order.nodup.filter _) ?_
    intro op h h'
    have h₁ := (Order.mem_of _ _).1 h
    have h₂ := (Order.mem_of _ _).1 h'
    exact (Finset.mem_sdiff.1 h₁).2 (Finset.mem_sdiff.1 h₂).1
  · rcases List.mem_append.1 hd with hd | hd
    · obtain ⟨op, hop, rfl⟩ := List.mem_map.1 hd
      exact ⟨_, .inl ⟨rfl, fun h =>
        (Finset.mem_sdiff.1 ((Order.mem_of _ _).1 hop)).2 ((hmem op).1 h)⟩⟩
    · obtain ⟨op, hop, rfl⟩ := List.mem_map.1 hd
      exact ⟨_, .inr ⟨rfl,
        (hmem op).2 (Finset.mem_sdiff.1 ((Order.mem_of _ _).1 hop)).1⟩⟩

theorem sync_fst : (b.sync implemented ch c).1 =
    perform ch.fails (b.changes ch.order (b.wanted implemented) ++
      [.register (b.names (b.wanted implemented))]) c := by
  rw [sync_eq, perform_append]
  split_ifs <;> rfl

/-- A disturbed `sync` raises. -/
theorem sync_raised
    (h : ¬ ch.GoesWell c.made (b.changeCount (b.wanted implemented) + 1)) :
    (b.sync implemented ch c).1.raised = true := by
  rw [sync_fst]
  refine perform_raised ?_
  unfold Choices.GoesWell at h
  push Not at h
  obtain ⟨i, hi, hf⟩ := h
  exact ⟨i, by simpa [changes_length] using hi, by simpa using hf⟩

/-- A `sync` that changes a function leaves other functions, whether it raises or not. -/
theorem sync_ne (hfun : c.functions = b.names b.registeredOps)
    (hn : b.changeCount (b.wanted implemented) ≠ 0) (hfirst : ch.fails c.made = false) :
    (b.sync implemented ch c).1.conn.functions ≠ c.functions := by
  have hne : b.changes ch.order (b.wanted implemented) ≠ [] := by
    intro h
    exact hn ((changes_length ch.order).symm.trans (by rw [h]; rfl))
  rw [sync_fst]
  exact (moves_changes hfun ch.order).perform_ne hne hfirst (by simp [DuckCall.udf?])

/-- A removal that fails leaves its function. -/
theorem perform_remove_raised {probeId : Nat} {ops : List Op} (hnodup : ops.Nodup)
    (hall : ∀ op ∈ ops, ⟨probeId, op⟩ ∈ c.functions)
    (h : (perform fails (ops.map fun op => .removeFunction ⟨probeId, op⟩) c).raised = true) :
    (perform fails (ops.map fun op => .removeFunction ⟨probeId, op⟩) c).conn.functions ≠ ∅ := by
  induction ops generalizing c with
  | nil => cases h
  | cons op ops ih =>
    obtain ⟨hop, hnodup⟩ := List.nodup_cons.1 hnodup
    rw [List.map_cons, perform] at h ⊢
    split_ifs at h ⊢ with hd
    · exact Finset.ne_empty_of_mem (hall op List.mem_cons_self)
    · refine ih hnodup (fun op' hop' => ?_) h
      have hne : (⟨probeId, op'⟩ : Udf) ≠ ⟨probeId, op⟩ := by
        intro e
        cases e
        exact hop hop'
      exact Finset.mem_erase.2 ⟨hne, hall op' (List.mem_cons_of_mem _ hop')⟩

end Disturbed

section Exact

variable {implemented : Nat → Finset Op} {ch : Choices} {w : Registrar} {schema : String}
  {provider : Nat} {b : Binding}

theorem undoRegister_functions {c : Connection} (h : (b.without schema).providers = ∅) :
    (undoRegister ch w schema provider c b).functions =
      (perform ch.fails ((ch.repairOrder.of b.registeredOps).map
        fun op => .removeFunction ⟨b.probeId, op⟩) c).conn.functions := by
  unfold undoRegister
  dsimp only
  rw [if_pos h]
  rfl

theorem not_goesWell {m n : Nat} (h : ¬ ch.GoesWell m n) : ∃ i < n, ch.fails (m + i) = true := by
  unfold Choices.GoesWell at h
  push Not at h
  obtain ⟨i, hi, hf⟩ := h
  exact ⟨i, hi, by simpa using hf⟩

/-- A first registration that raises in the middle leaves a function behind. -/
theorem undoRegister_ne {w' : Registrar} {n : Nat} {c : Connection} (hmade : c.made = 0)
    (hempty : c.functions = ∅) (hops : b.registeredOps = ∅)
    (hb : (b.without schema).providers = ∅)
    (hn : b.changeCount (b.wanted implemented) = n) (hn0 : n ≠ 0) (hfirst : ch.fails 0 = false)
    (hwell : ¬ ch.GoesWell 0 (n + 1))
    (hrepair : ¬ (ch.GoesWell 0 n ∧ ch.fails n = true ∧
      ch.GoesWell (n + 1) (b.wanted implemented).card)) :
    (undoRegister ch w' schema provider (b.sync implemented ch c).1.conn
      (b.sync implemented ch c).2).functions ≠ ∅ := by
  have hfun : c.functions = b.names b.registeredOps := by rw [hempty, hops]; rfl
  by_cases hchanged : ch.GoesWell 0 n
  · -- every function is there, the extension refuses, and a removal fails
    have hlast : ch.fails n = true := by
      by_contra hlast
      refine hwell fun i hi => ?_
      rcases Nat.lt_succ_iff_lt_or_eq.1 hi with hi | rfl
      · exact hchanged i hi
      · simpa using hlast
    have hremove : ¬ ch.GoesWell (n + 1) (b.wanted implemented).card :=
      fun h => hrepair ⟨hchanged, hlast, h⟩
    rw [sync_register_fails hfun (by rw [hmade, hn]; exact hchanged)
      (by rw [hmade, hn, Nat.zero_add]; exact hlast)]
    rw [undoRegister_functions (by exact hb)]
    refine perform_remove_raised (ch.repairOrder.nodup.filter _) (fun op hop => ?_)
      (perform_raised ?_)
    · exact Finset.mem_image_of_mem _ ((Order.mem_of _ _).1 hop)
    · obtain ⟨i, hi, hf⟩ := not_goesWell hremove
      refine ⟨i, by simpa using hi, ?_⟩
      dsimp only
      rw [hmade, hn, Nat.zero_add]
      exact hf
  · -- a later creation fails, before the binding knows of any
    have hraised :
        (perform ch.fails (b.changes ch.order (b.wanted implemented)) c).raised = true := by
      obtain ⟨i, hi, hf⟩ := not_goesWell hchanged
      refine perform_raised ⟨i, by rw [changes_length, hn]; exact hi, by rw [hmade]; exact hf⟩
    have hne : b.changes ch.order (b.wanted implemented) ≠ [] := by
      intro h
      have hlen : (b.changes ch.order (b.wanted implemented)).length = _ := changes_length _
      rw [h, hn] at hlen
      exact hn0 hlen.symm
    have hnil : ch.repairOrder.of ∅ = [] :=
      List.length_eq_zero_iff.1 (by rw [Order.length_of]; rfl)
    rw [sync_eq, if_pos hraised, undoRegister_functions hb, hops, hnil]
    have hmoved : (perform ch.fails
        (b.changes ch.order (b.wanted implemented) ++ []) c).conn.functions ≠ c.functions :=
      (moves_changes hfun ch.order).perform_ne hne (by rw [hmade]; exact hfirst) (by simp)
    rw [List.append_nil, hempty] at hmoved
    exact hmoved

theorem Registrar.Ok.undisturbed_register (hw : w.Ok)
    (h : w.Atomic implemented ⟨.register schema provider, ch⟩) :
    Undisturbed implemented w ⟨.register schema provider, ch⟩ := by
  by_contra hc
  dsimp only [Undisturbed] at hc
  simp only [not_or] at hc
  obtain ⟨hs, hn, hfirst, hwell, hrepair⟩ := hc
  rw [Bool.not_eq_true] at hfirst
  have hfun : w.conn.functions =
      (w.joined schema provider).names (w.joined schema provider).registeredOps := hw.object
  have hcall : w.call implemented ⟨.register schema provider, ch⟩ =
      (true, undoRegister ch w.constructed schema provider
        ((w.joined schema provider).sync implemented ch w.conn).1.conn
        ((w.joined schema provider).sync implemented ch w.conn).2) := by
    show Provider.registerProvider implemented ch w schema provider = _
    rw [Provider.registerProvider, if_neg hs, finishRegister, if_pos (sync_raised hwell)]
  have hsame := (h.unchanged (by rw [hcall])).2
  rw [hcall] at hsame
  -- a first registration is undone as a whole, another one by a sync without the schema
  cases he : w.entry with
  | none =>
    have hobj : w.object = { probeId := w.nextProbe } := by simp [Registrar.object, he]
    have hempty : w.functions = ∅ := by rw [hw.functions, he]; rfl
    refine undoRegister_ne (c := w.conn) rfl hempty ?_ ?_ rfl hn hfirst hwell
      (fun hr => hrepair ⟨he, hr⟩) (hsame.trans hempty)
    · rw [Registrar.joined, hobj]
    · show ((w.joined schema provider).providers.erase schema) = ∅
      rw [Registrar.joined, erase_insert hs, hobj]
  | some b₀ =>
    have hobj : w.object = b₀ := by simp [Registrar.object, he]
    have hsnd : ((w.joined schema provider).sync implemented ch w.conn).2.providers =
        (w.joined schema provider).providers := by
      rw [sync_eq]
      split_ifs <;> rfl
    have hkept : undoRegister ch w.constructed schema provider
        ((w.joined schema provider).sync implemented ch w.conn).1.conn
        ((w.joined schema provider).sync implemented ch w.conn).2 =
        Registrar.leave { w.constructed with
          entry := w.entry.map fun _ =>
            ((w.joined schema provider).sync implemented ch w.conn).2.without schema
          bound := Function.update w.bound provider false }
          ((w.joined schema provider).sync implemented ch w.conn).1.conn := by
      unfold undoRegister
      dsimp only
      rw [if_neg]
      · rfl
      · show ((w.joined schema provider).sync implemented ch w.conn).2.providers.erase schema ≠ ∅
        rw [hsnd, Registrar.joined, erase_insert hs, hobj]
        exact hw.bound b₀ he
    rw [hkept] at hsame
    exact sync_ne hfun hn hfirst hsame

/-- A last unregistration that raises at a later removal leaves fewer functions. -/
theorem close_ne {c : Connection} (hheld : c.held ≠ none)
    (hfun : c.functions = b.names b.registeredOps)
    (hfirst : ch.fails c.made = false) (hsecond : ch.fails (c.made + 1) = false)
    (hwell : ¬ ch.GoesWell c.made (b.registeredOps.card + 1)) :
    (b.close ch c).1.raised = true ∧ (b.close ch c).1.conn.functions ≠ c.functions := by
  have hmoves : Moves ⟨c.functions, none, c.made + 1⟩
      ((ch.order.of b.registeredOps).map fun op => .removeFunction ⟨b.probeId, op⟩) := by
    refine ⟨?_, fun d hd => ?_⟩
    · rw [List.map_map]
      exact (ch.order.nodup.filter _).map fun op op' h => by simpa [DuckCall.udf?] using h
    · obtain ⟨op, hop, rfl⟩ := List.mem_map.1 hd
      refine ⟨_, .inr ⟨rfl, ?_⟩⟩
      show _ ∈ c.functions
      rw [hfun]
      exact Finset.mem_image_of_mem _ ((Order.mem_of _ _).1 hop)
  obtain ⟨i, hi, hf⟩ := not_goesWell hwell
  obtain ⟨j, rfl⟩ : ∃ j, i = j + 1 := by
    cases i with
    | zero => exact absurd hf (by simp [hfirst])
    | succ j => exact ⟨j, rfl⟩
  have hlen : j < (ch.order.of b.registeredOps).length := by
    rw [Order.length_of]
    omega
  have hraised : (perform ch.fails
      ((ch.order.of b.registeredOps).map fun op => .removeFunction ⟨b.probeId, op⟩)
      ⟨c.functions, none, c.made + 1⟩).raised = true :=
    perform_raised ⟨j, by simpa using hlen, by
      show ch.fails (c.made + 1 + j) = true
      rw [Nat.add_assoc, Nat.add_comm 1 j]
      exact hf⟩
  have hne : (ch.order.of b.registeredOps).map
      (fun op => DuckCall.removeFunction ⟨b.probeId, op⟩) ≠ [] := by
    intro h
    rw [List.map_eq_nil_iff.1 h] at hlen
    cases hlen
  have hmoved := hmoves.perform_ne hne (show ch.fails (c.made + 1) = false from hsecond)
    (fun d hd => absurd hd (List.not_mem_nil))
  rw [List.append_nil] at hmoved
  rw [close_eq, perform_unregister hheld hfirst, if_neg (by simp)]
  exact ⟨hraised, hmoved⟩

/-- One of several providers: a call that is disturbed raises, with other functions. -/
theorem detach_ne {c : Connection} (hb : b.providers ≠ ∅)
    (hfun : c.functions = b.names b.registeredOps)
    (hn : b.changeCount (b.wanted implemented) ≠ 0) (hfirst : ch.fails c.made = false)
    (hwell : ¬ ch.GoesWell c.made (b.changeCount (b.wanted implemented) + 2)) :
    (b.detach implemented ch c).1.raised = true ∧
      (b.detach implemented ch c).1.conn.functions ≠ c.functions := by
  have hne := sync_ne hfun hn hfirst
  rw [detach_eq hb]
  by_cases hsync : ch.GoesWell c.made (b.changeCount (b.wanted implemented) + 1)
  · rw [sync_ok hfun hsync] at hne ⊢
    dsimp only at hne ⊢
    rw [if_neg (by simp), perform_invalidate (by simp)]
    refine ⟨?_, hne⟩
    obtain ⟨i, hi, hf⟩ := not_goesWell hwell
    have hi' : i = b.changeCount (b.wanted implemented) + 1 := by
      by_contra hi'
      have := hsync i (by omega)
      rw [hf] at this
      cases this
    show ch.fails (c.made + b.changeCount (b.wanted implemented) + 1) = true
    rw [Nat.add_assoc, ← hi']
    exact hf
  · rw [if_pos (sync_raised hsync)]
    exact ⟨sync_raised hsync, hne⟩

theorem Registrar.Ok.undisturbed_unregister (hw : w.Ok)
    (h : w.Atomic implemented ⟨.unregister schema provider, ch⟩) :
    Undisturbed implemented w ⟨.unregister schema provider, ch⟩ := by
  intro b he hbound hp
  have hfun : w.conn.functions = (b.without schema).names (b.without schema).registeredOps := by
    show w.functions = _
    rw [hw.functions, he]
    rfl
  have hcall : w.call implemented ⟨.unregister schema provider, ch⟩ =
      finishUnregister w schema provider ((b.without schema).detach implemented ch w.conn) := by
    show Provider.unregisterProvider implemented ch w schema provider = _
    have he' : w.entry = some b := he
    unfold Provider.unregisterProvider
    rw [he']
    dsimp only
    rw [if_neg (by simp [hbound, hp])]
  -- a call that raises with other functions is not atomic
  have hatomic : ¬ (((b.without schema).detach implemented ch w.conn).1.raised = true ∧
      ((b.without schema).detach implemented ch w.conn).1.conn.functions ≠ w.conn.functions) := by
    rintro ⟨hraised, hne⟩
    have hfinish : finishUnregister w schema provider
        ((b.without schema).detach implemented ch w.conn) = (true, _) := if_pos hraised
    have hsame := (h.unchanged (by rw [hcall, hfinish])).2
    rw [hcall, hfinish] at hsame
    exact hne hsame
  dsimp only
  by_cases hlast : (b.without schema).providers = ∅
  · rw [if_pos hlast]
    by_contra hc
    simp only [not_or, Bool.not_eq_true] at hc
    obtain ⟨hheld, hfirst, hsecond, hwell⟩ := hc
    refine hatomic ?_
    rw [Binding.detach, if_pos hlast]
    exact close_ne hheld hfun hfirst hsecond hwell
  · rw [if_neg hlast]
    by_contra hc
    simp only [not_or, Bool.not_eq_true] at hc
    obtain ⟨hn, hfirst, hwell⟩ := hc
    exact hatomic (detach_ne hlast hfun hn hfirst hwell)

end Exact

/-! ### Runs -/

variable {implemented : Nat → Finset Op} {w : Registrar} {l : Call} {ls : List Call}

/-- **Step lemma**: an undisturbed call keeps the invariant. -/
theorem Registrar.Ok.call (hw : w.Ok) (hc : Undisturbed implemented w l) :
    w.Keeps (w.call implemented l) := by
  obtain ⟨request, ch⟩ := l
  cases request with
  | register schema provider => exact hw.registerProvider hc
  | unregister schema provider => exact hw.unregisterProvider hc

/-- From a state that is in order, a call is atomic exactly if it is undisturbed. -/
theorem Registrar.Ok.atomic_iff (hw : w.Ok) :
    w.Atomic implemented l ↔ Undisturbed implemented w l := by
  constructor
  · intro h
    obtain ⟨request, ch⟩ := l
    cases request with
    | register schema provider => exact hw.undisturbed_register h
    | unregister schema provider => exact hw.undisturbed_unregister h
  · intro hc
    have hkeeps := hw.call hc
    exact ⟨hkeeps.ok.consistent, hkeeps.unchanged⟩

/-- Nothing is registered. -/
def Registrar.start : Registrar := {}

theorem Registrar.ok_start : Registrar.start.Ok := ⟨rfl, nofun, nofun⟩

/-- **Atomic registration.**  After any undisturbed calls, the next one leaves the extension with
registered functions only, the binding with every function, and, if it raised, the providers and
the functions as they were, exactly if it is undisturbed, too. -/
theorem atomic_registration
    (h : (registration implemented).Run (Undisturbed implemented) .start ls w) :
    w.Atomic implemented l ↔ Undisturbed implemented w l := by
  have hok : w.Ok := h.invariant Registrar.ok_start fun s l t hs hc hn => by
    cases hn
    exact (hs.call hc).ok
  exact hok.atomic_iff

/-- Every provider implements `insert`. -/
def Sample.inserting : Nat → Finset Op := fun _ => {.insert}

/-- The order of `_ALL_OPS`. -/
def Sample.order : Order := ⟨Op.all, by decide, by intro op; cases op <;> decide⟩

/-- A registration during which the DuckDB calls with some numbers fail. -/
def Sample.registering (schema : String) (provider : Nat) (failing : List Nat) : Call :=
  ⟨.register schema provider, ⟨fun i => failing.contains i, Sample.order, Sample.order⟩⟩

theorem atomic_registration_second :
    ∃ w, (registration Sample.inserting).Run (Undisturbed Sample.inserting) .start
        [Sample.registering "public" 0 []] w ∧ w.functions.card = 4 ∧
      (w.Atomic Sample.inserting (Sample.registering "other" 1 [0]) ↔
        Undisturbed Sample.inserting w (Sample.registering "other" 1 [0])) := by
  have hc : Undisturbed Sample.inserting .start (Sample.registering "public" 0 []) :=
    .inr (.inr (.inr (.inl fun i _ => rfl)))
  have hrun := Machine.Run.single (M := registration Sample.inserting) hc rfl
  exact ⟨_, hrun, by decide, atomic_registration hrun⟩

/-- The second `create_function` of a first registration fails: the first function stays, and no
binding knows of it. -/
theorem not_atomic_registration :
    (Registrar.start.call Sample.inserting (Sample.registering "public" 0 [1])).1 = true ∧
      (Registrar.start.call Sample.inserting (Sample.registering "public" 0 [1])).2.functions =
        {⟨0, .list⟩} ∧
      ¬ Registrar.start.Atomic Sample.inserting (Sample.registering "public" 0 [1]) := by
  have hraised :
      (Registrar.start.call Sample.inserting (Sample.registering "public" 0 [1])).1 = true := by
    decide
  have hleft : (Registrar.start.call Sample.inserting
      (Sample.registering "public" 0 [1])).2.functions = {⟨0, .list⟩} := by decide
  refine ⟨hraised, hleft, fun h => ?_⟩
  have hsame := (h.unchanged hraised).2
  rw [hleft] at hsame
  exact absurd hsame (by decide)

end Provider

end VirtualCatalog
