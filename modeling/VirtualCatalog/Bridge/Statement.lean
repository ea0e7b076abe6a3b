import VirtualCatalog.Bridge.Owner
import VirtualCatalog.Machine.Locked

/-!
# The statements of a guest on the source

A statement reads the context and the grant book in separate lock sections, so it is a program of
sections over the owner's `Store`.  Each section carries a `Moment`: which lookup it is, and which
lookups are filled from which snapshot around it.

* `resolveFloor`, `resolveFloors` : `PolicyResolver`, which stands a table behind its select policy.
* `policyShaper`, `shape` : `PolicyShaper`, which grafts the write policies onto a statement.
* `write`, `read`, `alter` : the statements themselves.
-/

namespace VirtualCatalog

/-- A lookup of a predicate in the grant book. -/
structure Lookup where
  schema : String
  table : String
  verb : CrossingVerb
  /-- The CHECK predicate, rather than the USING predicate. -/
  check : Bool := false

/-- `UsingFor` or `CheckFor`. -/
def GrantBook.lookup (book : GrantBook) (l : Lookup) : Option Expr :=
  if l.check then book.checkFor l.schema l.table l.verb else book.usingFor l.schema l.table l.verb

/-- What a lock section of a statement does. -/
inductive Phase where
  /-- `Describe`: the verbs and the key of the grant of a table. -/
  | describe (schema table : String)
  /-- `ContextSnapshot`. -/
  | snapshot
  /-- `Grants`, for select on a table. -/
  | selectGrant (schema table : String)
  | lookup (l : Lookup)
  /-- A grant that a DDL checks, under one lock. -/
  | ddlGrant

/-- Where a statement stands when it waits for a lock. -/
structure Moment where
  phase : Phase
  /-- The lookups that a snapshot already taken fills, while another snapshot is to come. -/
  earlier : List Lookup := []
  /-- The lookups to come, each with the snapshot that fills it. -/
  coming : List (ContextValues × Lookup) := []

/-- A statement of the guest. -/
abbrev Stmt (α : Type) := Prog Moment Store BridgeError α

/-- A predicate as it was picked up, and filled. -/
structure Filled where
  predicate : Expr
  filled : Expr

/-- Fill a predicate, if there is one. -/
def fillOption (values : ContextValues) : Option Expr → Except BridgeError (Option Filled)
  | none => .ok none
  | some p => (fillContext values p).map fun e => some ⟨p, e⟩

/-- The text of a missing permission. -/
def noPermission (subject : String) (verb : CrossingVerb) : BridgeError :=
  ⟨.permission, "vcatbridge: " ++ subject ++ " does not have '" ++ verb.name ++ "' permission"⟩

/-- `'schema.table'`. -/
def quoted (schema table : String) : String := "'" ++ schema ++ "." ++ table ++ "'"

/-! ### Reading -/

/-- `CrossingFloor`: a table a plan reads, with the columns it reads of it. -/
structure CrossingFloor where
  schema : String
  table : String
  columnNames : List String

/-- The lookup of a floor. -/
def CrossingFloor.lookup (floor : CrossingFloor) : Lookup := ⟨floor.schema, floor.table, .select, false⟩

/-- What a floor binds to: the table, or `SELECT columns FROM table WHERE restriction`. -/
structure FloorPlan where
  floor : CrossingFloor
  restriction : Option Filled

/-- The resolver that `PolicyResolver` makes of the snapshot `values`. -/
def resolveFloor (earlier : List Lookup) (after : List (ContextValues × Lookup))
    (values : ContextValues) (floor : CrossingFloor) : Stmt FloorPlan :=
  let coming := (values, floor.lookup) :: after
  .sect ⟨.selectGrant floor.schema floor.table, earlier, coming⟩ fun s =>
    if s.book.grants floor.schema floor.table .select then
      .sect ⟨.lookup floor.lookup, earlier, coming⟩ fun s =>
        (Prog.ofExcept (fillOption values (s.book.lookup floor.lookup))).bind fun restriction =>
          .ret ⟨floor, restriction⟩
    else .throw (noPermission (quoted floor.schema floor.table) .select)

/-- `BindFloors` with that resolver. -/
def resolveFloors (earlier : List Lookup) (after : List (ContextValues × Lookup))
    (values : ContextValues) : List CrossingFloor → Stmt (List FloorPlan)
  | [] => .ret []
  | floor :: floors =>
    (resolveFloor earlier (floors.map (fun f => (values, f.lookup)) ++ after) values floor).bind
      fun plan => (resolveFloors earlier after values floors).bind fun plans => .ret (plan :: plans)

/-- `DuckDBSession::Read`, once for each fragment of a statement: `taken` are the lookups of the
fragments before. -/
def readFragments (taken : List Lookup) : List (List CrossingFloor) → Stmt (List (List FloorPlan))
  | [] => .ret []
  | fragment :: fragments =>
    .sect ⟨.snapshot, taken, []⟩ fun s =>
      let taken := taken ++ fragment.map (·.lookup)
      (resolveFloors (if fragments.isEmpty then [] else taken) [] s.context.values fragment).bind
        fun plans => (readFragments taken fragments).bind fun rest => .ret (plans :: rest)

/-- The reads of a statement. -/
def read (fragments : List (List CrossingFloor)) : Stmt (List (List FloorPlan)) :=
  readFragments [] fragments

/-! ### Writing -/

namespace CrossingWriteTarget

/-- The statement reads the rows it writes. -/
def readsItsRows (target : CrossingWriteTarget) : Bool :=
  target.readsRows && decide (target.verb ≠ .insert)

/-- The USING predicate of the verb. -/
def usingLookup (target : CrossingWriteTarget) : Lookup :=
  ⟨target.schema, target.table, target.verb, false⟩

/-- The CHECK predicate of the verb. -/
def checkLookup (target : CrossingWriteTarget) : Lookup :=
  ⟨target.schema, target.table, target.verb, true⟩

/-- The USING predicate of select. -/
def visibleLookup (target : CrossingWriteTarget) : Lookup :=
  ⟨target.schema, target.table, .select, false⟩

/-- What the shaper looks up, in order. -/
def lookups (target : CrossingWriteTarget) : List Lookup :=
  [target.usingLookup, target.checkLookup] ++
    if target.readsItsRows then [target.visibleLookup] else []

end CrossingWriteTarget

/-- The restriction of an update or delete: what select shows, and the verb's own predicate. -/
def restrict (visible usingPredicate : Option Expr) : Option Expr :=
  match visible, usingPredicate with
  | some v, some u => some (andWith (some v) u)
  | some v, none => some v
  | none, u => u

/-- Guard the first expression. -/
def guardFirst (check : Expr) : List Expr → List Expr
  | [] => []
  | e :: es => guardWithCheck check e :: es

/-- Narrow the rows a statement touches. -/
def narrow (target : CrossingWriteTarget) (restriction : Option Expr)
    (built : CrossingWriteStatement) : CrossingWriteStatement :=
  match restriction with
  | none => built
  | some u =>
    { built with condition := some (andWith built.condition (qualifyColumns u target.table built)) }

/-- Guard the first written value; `keyCount` seam columns precede the written ones. -/
def guardStatement (target : CrossingWriteTarget) (check : Option Expr) (keyCount : Nat)
    (built : CrossingWriteStatement) : CrossingWriteStatement :=
  match check with
  | none => built
  | some c =>
    let check := pointCheckAtUpdatedRow c target.table target.setColumns built keyCount
    { built with expressions := guardFirst check built.expressions }

/-- The switch of `PolicyShaper`, over filled predicates. -/
def graft (target : CrossingWriteTarget) (restriction check : Option Expr)
    (built : CrossingWriteStatement) : CrossingWriteStatement :=
  match target.verb with
  | .insert => guardStatement target check 0 built
  | .update =>
    guardStatement target check target.keyColumns.length (narrow target restriction built)
  | .delete => narrow target restriction built
  | _ => built

/-- A shaped write: the predicates as they were picked up, filled, and the statement. -/
structure ShapedWrite where
  usingPredicate : Option Expr
  check : Option Expr
  visible : Option Expr
  filled : List Filled
  statement : CrossingWriteStatement

/-- The shaper, once it has looked up its predicates. -/
def finishShape (target : CrossingWriteTarget) (values : ContextValues)
    (built : CrossingWriteStatement) (usingPredicate check visible : Option Expr) :
    Except BridgeError ShapedWrite := do
  let restriction ← fillOption values (restrict visible usingPredicate)
  let filledCheck ← fillOption values check
  return ⟨usingPredicate, check, visible, restriction.toList ++ filledCheck.toList,
    graft target (restriction.map (·.filled)) (filledCheck.map (·.filled)) built⟩

/-- The shaper that `PolicyShaper` makes of the snapshot `values`. -/
def shape (target : CrossingWriteTarget) (values : ContextValues)
    (built : CrossingWriteStatement) : Stmt ShapedWrite :=
  let visible := if target.readsItsRows then [(values, target.visibleLookup)] else []
  let check := (values, target.checkLookup) :: visible
  .sect ⟨.lookup target.usingLookup, [], (values, target.usingLookup) :: check⟩ fun s =>
    let usingPredicate := s.book.lookup target.usingLookup
    .sect ⟨.lookup target.checkLookup, [], check⟩ fun s =>
      let check := s.book.lookup target.checkLookup
      if target.readsItsRows then
        .sect ⟨.lookup target.visibleLookup, [], visible⟩ fun s =>
          .ofExcept (finishShape target values built usingPredicate check
            (s.book.lookup target.visibleLookup))
      else .ofExcept (finishShape target values built usingPredicate check none)

/-- `PolicyShaper` up to the shaper it returns: the snapshot, and the select grant of a statement
that reads its rows.  `again` says that another snapshot is to come. -/
def policyShaper (target : CrossingWriteTarget) (again : Bool) : Stmt ContextValues :=
  .sect ⟨.snapshot, [], []⟩ fun s =>
    let values := s.context.values
    if target.readsItsRows then
      .sect ⟨.selectGrant target.schema target.table, if again then target.lookups else [],
          target.lookups.map fun l => (values, l)⟩ fun s =>
        if s.book.grants target.schema target.table .select then .ret values
        else .throw (noPermission (quoted target.schema target.table) .select)
    else .ret values

/-- `DuckDBSession::Write`: `plan` are the floors of a plan whose rows feed the seam, if there is
one. -/
def write (target : CrossingWriteTarget) (plan : Option (List CrossingFloor))
    (built : CrossingWriteStatement) : Stmt (List FloorPlan × ShapedWrite) :=
  (policyShaper target plan.isSome).bind fun values =>
    match plan with
    | none => (shape target values built).bind fun shaped => .ret ([], shaped)
    | some floors =>
      let coming := target.lookups.map fun l => (values, l)
      .sect ⟨.snapshot, target.lookups, coming⟩ fun s =>
        (resolveFloors [] coming s.context.values floors).bind fun plans =>
          (shape target values built).bind fun shaped => .ret (plans, shaped)

/-- The bind of a write: its fence takes the verbs from `Describe`. -/
def bindWrite (target : CrossingWriteTarget) : Stmt Unit :=
  .sect ⟨.describe target.schema target.table, [], []⟩ fun s =>
    match s.book.tables.findGrant target.schema target.table with
    | none => .throw ⟨.catalog, "vcatbridge: " ++ quoted target.schema target.table ++
        " is not granted"⟩
    | some g => .ofExcept (throwIf (g.has target.verb = false)
        (noPermission ("'" ++ target.table ++ "'") target.verb))

/-! ### Altering -/

/-- The verb is granted, and its USING predicate folds to `TRUE` on the source. -/
def holdsEverywhere (folds : Expr → Bool) (values : ContextValues) (g : Option SourceGrant)
    (verb : CrossingVerb) : Except BridgeError Bool :=
  if g.any (·.has verb) = false then .ok false
  else
    match g.bind (·.copyUsing verb) with
    | none => .ok true
    | some p => (fillContext values p).map folds

/-- `ThrowUnlessAlterGrantedOverFullTable`; `folds` is `PredicateFoldsToTrue`. -/
def alter (folds : Expr → Bool) (schema table : String) : Stmt Unit :=
  .sect ⟨.ddlGrant, [], []⟩ fun s =>
    let g := s.book.tables.findGrant schema table
    .sect ⟨.snapshot, [], []⟩ fun s =>
      .ofExcept do
        let alters ← holdsEverywhere folds s.context.values g .alter
        throwIf (alters = false) (noPermission ("'" ++ table ++ "'") .alter)
        let selects ← holdsEverywhere folds s.context.values g .select
        throwIf (selects = false)
          ⟨.permission, "vcatbridge: the select policy on " ++ quoted schema table ++
            " hides rows, so the target cannot see the full table and cannot alter it"⟩

/-! ### The statements of a guest -/

/-- A statement that reads or writes rows. -/
inductive DataStatement where
  | read (fragments : List (List CrossingFloor))
  | write (target : CrossingWriteTarget) (plan : Option (List CrossingFloor))
      (built : CrossingWriteStatement)

/-- The predicates that a plan applies. -/
def restrictions (plans : List FloorPlan) : List Filled := plans.filterMap (·.restriction)

/-- The predicates that the source applies for the statement. -/
def DataStatement.applied : DataStatement → Stmt (List Filled)
  | read fragments => (VirtualCatalog.read fragments).bind fun plans =>
    .ret (restrictions plans.flatten)
  | write target plan built => (VirtualCatalog.write target plan built).bind fun r =>
    .ret (restrictions r.1 ++ r.2.filled)

/-! ### Filling what a statement looked up -/

section

variable {values : ContextValues}

theorem lookup_congr {b b' : GrantBook} (h : b'.tables = b.tables) (l : Lookup) :
    b'.lookup l = b.lookup l := by
  rw [GrantBook.lookup, GrantBook.lookup, GrantBook.checkFor, GrantBook.checkFor,
    GrantBook.usingFor, GrantBook.usingFor, h]

theorem grants_congr {b b' : GrantBook} (h : b'.tables = b.tables) (schema table : String)
    (verb : CrossingVerb) : b'.grants schema table verb = b.grants schema table verb := by
  rw [GrantBook.grants, GrantBook.grants, h]

theorem fillOption_ok {p : Option Expr} {f : Option Filled}
    (h : fillOption values p = .ok f) : f.map (·.predicate) = p := by
  cases p with
  | none => cases h; rfl
  | some e =>
    rw [fillOption] at h
    cases hf : fillContext values e with
    | error x => rw [hf] at h; cases h
    | ok e' => rw [hf] at h; cases h; rfl

theorem exists_fillOption {p : Option Expr}
    (h : ∀ e, p = some e → FilledBy values e) : ∃ f, fillOption values p = .ok f := by
  cases p with
  | none => exact ⟨none, rfl⟩
  | some e =>
    obtain ⟨e', he⟩ := fillContext_ok_iff.2 (h e rfl)
    exact ⟨some ⟨e, e'⟩, by rw [fillOption, he]; rfl⟩

/-- A live predicate has only names of the context. -/
theorem Closed.lookup {s : Store} (h : Closed s) {l : Lookup} {p : Expr}
    (hp : s.book.lookup l = some p) : FilledBy s.context.values p := by
  rw [GrantBook.lookup, GrantBook.checkFor, GrantBook.usingFor] at hp
  split_ifs at hp
  · obtain ⟨g, hg, hp⟩ := Option.bind_eq_some_iff.1 hp
    exact (h.book (tableKey l.schema l.table) g hg l.verb).2 p hp
  · obtain ⟨g, hg, hp⟩ := Option.bind_eq_some_iff.1 hp
    exact (h.book (tableKey l.schema l.table) g hg l.verb).1 p hp

/-- A restriction has the names of the two predicates it is made of. -/
theorem mem_parameterNames_restrict {u v : Option Expr} {p : Expr} {n : String}
    (hp : restrict v u = some p) (hn : n ∈ parameterNames p) :
    ∃ q, (u = some q ∨ v = some q) ∧ n ∈ parameterNames q := by
  cases v with
  | none => exact ⟨p, .inl hp, hn⟩
  | some v =>
    cases u with
    | none => exact ⟨p, .inr hp, hn⟩
    | some u =>
      cases hp
      rcases List.mem_append.1 ((parameterNames_and v u) ▸ hn) with hn | hn
      · exact ⟨v, .inr rfl, hn⟩
      · exact ⟨u, .inl rfl, hn⟩

theorem filledBy_restrict {u v : Option Expr} (hu : ∀ e, u = some e → FilledBy values e)
    (hv : ∀ e, v = some e → FilledBy values e) :
    ∀ e, restrict v u = some e → FilledBy values e := by
  intro e he
  rw [filledBy_iff]
  intro n hn
  obtain ⟨q, hq | hq, hn⟩ := mem_parameterNames_restrict he hn
  · exact filledBy_iff.1 (hu q hq) n hn
  · exact filledBy_iff.1 (hv q hq) n hn

theorem finishShape_succeeds (target : CrossingWriteTarget) (built : CrossingWriteStatement)
    {u c v : Option Expr} (hu : ∀ e, u = some e → FilledBy values e)
    (hc : ∀ e, c = some e → FilledBy values e) (hv : ∀ e, v = some e → FilledBy values e) :
    ∃ shaped, finishShape target values built u c v = .ok shaped := by
  obtain ⟨f, hf⟩ := exists_fillOption (filledBy_restrict hu hv)
  obtain ⟨f', hf'⟩ := exists_fillOption hc
  rw [finishShape, hf, hf']
  exact ⟨_, rfl⟩

end

/-! ### A bridge to point at -/

namespace Sample

/-- `tenant = value`. -/
def tenantIs (value : Expr) : Expr := .node (.call "=") [.columnRef (.plain "tenant"), value]

/-- The rows of tenant 1. -/
def ownRows : Expr := tenantIs (.constant (.integer 1))

/-- A grant of select and update over the rows `p` selects. -/
def grantOver (p : Expr) : SourceGrant where
  verbs := {.select, .update}
  usingPredicates v := if v = .select ∨ v = .update then some p else none
  checkPredicates v := if v = .update then some p else none

def orders : PolicyName := { schema := "main", name := "orders" }

/-- The grants of a bridge with one table. -/
def tables (g : SourceGrant) : GrantTables := (∅ : GrantTables).set "main" "orders" g

/-- A bridge with one table, whose owner has the calls `pending` in flight. -/
def store (g : SourceGrant) (values : ContextValues) (pending : List PendingCall) : Store where
  book := { state := { tables := tables g } }
  context := { values := values }
  pending := pending
  installed := [tables g]
  contexts := [values]

theorem closed_store {p : Expr} {values : ContextValues} {pending : List PendingCall}
    (h : FilledBy values p) (hp : ∀ c, .policy c ∈ pending → ClosedCommit values c) :
    Closed (store (grantOver p) values pending) := by
  refine ⟨closedGrants_empty.set fun v => ⟨?_, ?_⟩, hp⟩ <;>
  · intro e he
    simp only [grantOver, Option.mem_def] at he
    split_ifs at he
    exact Option.some.inj he ▸ h

/-- `UPDATE orders SET amount = 7`, which reads no row. -/
def target : CrossingWriteTarget where
  catalog := "source"
  schema := "main"
  table := "orders"
  verb := .update
  keyColumns := []
  setColumns := ["amount"]
  readsRows := false

/-- The statement built for it. -/
def built : CrossingWriteStatement where
  seamAlias := "seam"
  seamColumns := ["s0"]
  expressions := [.columnRef ⟨["seam"], "s0"⟩]
  condition := none

/-- A read of the table. -/
def floor : CrossingFloor := ⟨"main", "orders", ["tenant", "amount"]⟩

end Sample

end VirtualCatalog
