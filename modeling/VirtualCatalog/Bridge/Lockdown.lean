import VirtualCatalog.Machine.Fallible
import VirtualCatalog.Machine.Steps
import VirtualCatalog.Names.CaseInsensitive
import Mathlib.Logic.Function.Basic

/-!
# Locking an instance down

`vcatbridge_lockdown` changes a dozen things of a database instance one after the other.  The drops
are one transaction; the settings cannot be rolled back, and any of them may be refused.

* `Engine` : what DuckDB does: what a memory limit says, and what the setters and the drops change or
  throw.
* `Engine.Documented` : what the function relies on of it.
* `lockdown` : the function.
* `LockedDown` : everything the call asks for is done.
* `AllOrNothing` : the call did everything, or threw and left the instance as it was.
* `AcceptedAtOnce` : the instance as it is before the call accepts every change of the call; the settings
  after the temporary directory are judged without one.
* `RefusedAtOnce` : it refuses one and keeps what it has, and what comes before that one is in place.
* `lockdown_allOrNothing_iff` : a call whose arguments pass the checks is all or nothing exactly if one of
  the two holds.
-/

namespace VirtualCatalog

/-- The settings that the function touches. -/
inductive GlobalSetting where
  | allowPersistentSecrets
  | tempDirectory
  | memoryLimit
  | threads
  | autoloadKnownExtensions
  | autoinstallKnownExtensions
  | allowCommunityExtensions
  | disabledFilesystems
  | enableExternalAccess
  | lockConfiguration
deriving DecidableEq

/-- What a setting holds; a memory limit is a number of bytes, or no limit. -/
abbrev GlobalSetting.Value : GlobalSetting → Type
  | tempDirectory => String
  | memoryLimit => Option Nat
  | threads => Int
  | disabledFilesystems => String
  | _ => Bool

/-- The name of a setting in SQL. -/
def GlobalSetting.name : GlobalSetting → String
  | allowPersistentSecrets => "allow_persistent_secrets"
  | tempDirectory => "temp_directory"
  | memoryLimit => "memory_limit"
  | threads => "threads"
  | autoloadKnownExtensions => "autoload_known_extensions"
  | autoinstallKnownExtensions => "autoinstall_known_extensions"
  | allowCommunityExtensions => "allow_community_extensions"
  | disabledFilesystems => "disabled_filesystems"
  | enableExternalAccess => "enable_external_access"
  | lockConfiguration => "lock_configuration"

/-- The sets of a schema that functions are looked up in; aggregates and scalar macros share the
scalar set, table macros the table set. -/
inductive FunctionSet where
  | scalar
  | table
  | pragma
deriving DecidableEq

/-- `FUNCTION_SETS`. -/
def functionSets : List FunctionSet := [.scalar, .table, .pragma]

theorem mem_functionSets (set : FunctionSet) : set ∈ functionSets := by cases set <;> decide

/-- An entry of the system catalog. -/
structure SystemFunction where
  set : FunctionSet
  name : String

/-- The instance, as far as the function sees it. -/
structure DatabaseInstance where
  settings : (s : GlobalSetting) → s.Value
  /-- The functions of the system catalog. -/
  functions : FunctionSet → CISet

/-- An exception with its text. -/
inductive LockdownError where
  | permission (message : String)
  | invalidInput (message : String)
  | internal (message : String)
  /-- Thrown by DuckDB. -/
  | engine (message : String)

/-- An entry of a set is gone. -/
def DatabaseInstance.dropEntry (db : DatabaseInstance) (f : SystemFunction) : DatabaseInstance :=
  { db with functions := Function.update db.functions f.set ((db.functions f.set).erase f.name) }

/-- What DuckDB does.  It knows more than an instance here has: the memory in use, whether the secret
manager is initialized. -/
structure Engine where
  /-- `DBConfig::ParseMemoryLimit`; `none` is no limit at all. -/
  parseMemoryLimit : String → Except String (Option Nat)
  /-- `DBConfig::GetOptionByName` finds the setting. -/
  knows : GlobalSetting → Bool
  /-- `DBConfig::SetOption`. -/
  setOption : (s : GlobalSetting) → s.Value → DatabaseInstance → Except String Unit × DatabaseInstance
  /-- `RunFunctionInTransaction` with a `DropEntry` for each of the entries. -/
  dropEntries : List SystemFunction → DatabaseInstance → Except String Unit × DatabaseInstance

/-- The settings that decide whether a setting may be set: itself and the temporary directory, without
which memory cannot be spilled; and the directory cannot be changed once external access is off. -/
def GlobalSetting.reads (s : GlobalSetting) : Set GlobalSetting :=
  {s' | s' = s ∨ s' = .tempDirectory ∨ s = .tempDirectory ∧ s' = .enableExternalAccess}

/-- What the function relies on of DuckDB.  A setter that throws may have changed its own setting. -/
structure Engine.Documented (e : Engine) : Prop where
  sets : ∀ s value db, (e.setOption s value db).1 = .ok () →
    (e.setOption s value db).2.settings s = value
  otherSettings : ∀ s value db, ∀ s' ≠ s,
    (e.setOption s value db).2.settings s' = db.settings s'
  functions : ∀ s value db, (e.setOption s value db).2.functions = db.functions
  reads : ∀ (s : GlobalSetting) value (db db' : DatabaseInstance),
    (∀ s' ∈ s.reads, db.settings s' = db'.settings s') →
    ((e.setOption s value db).1 = .ok () ↔ (e.setOption s value db').1 = .ok ())
  drops : ∀ entries db, (e.dropEntries entries db).1 = .ok () →
    (e.dropEntries entries db).2 = entries.foldl DatabaseInstance.dropEntry db
  /-- A transaction that throws is rolled back. -/
  rollsBack : ∀ entries db message, (e.dropEntries entries db).1 = .error message →
    (e.dropEntries entries db).2 = db
  readsFunctions : ∀ entries (db db' : DatabaseInstance), db.functions = db'.functions →
    ((e.dropEntries entries db).1 = .ok () ↔ (e.dropEntries entries db').1 = .ok ())

/-- The arguments of one row. -/
structure LockdownCall where
  memoryLimit : Option String
  threads : Option Int
  /-- `none` in the form of two arguments; the list and its elements may be NULL. -/
  dropFunctions : Option (Option (List (Option String)))

/-- Throw if the condition holds. -/
def refuseIf (c : Bool) (e : LockdownError) : Except LockdownError Unit :=
  if c then .error e else .ok ()

/-! ### The changes -/

/-- The entries of a name, as `GetEntry` finds them. -/
def DatabaseInstance.systemFunctions (db : DatabaseInstance) (text : String) :
    List SystemFunction :=
  functionSets.filterMap fun set => ((db.functions set).entryAt text).map fun e => ⟨set, e.1⟩

/-- The loop of `ResolveSystemFunctions`. -/
def resolveNames (db : DatabaseInstance) :
    List (Option String) → CISet → Except LockdownError (List SystemFunction)
  | [], _ => .ok []
  | none :: _, _ =>
    .error (.invalidInput "vcatbridge_lockdown: drop_functions must not contain NULL")
  | some text :: names, seen =>
    if seen.contains text then resolveNames db names seen
    else do
      let found := db.systemFunctions text
      refuseIf found.isEmpty
        (.invalidInput ("vcatbridge_lockdown: no system function named \"" ++ text ++ "\""))
      let entries ← resolveNames db names (seen.add text)
      pure (found ++ entries)

/-- `ResolveSystemFunctions`. -/
def resolveSystemFunctions (names : Option (List (Option String))) (db : DatabaseInstance) :
    Except LockdownError (List SystemFunction) :=
  match names with
  | none => .error (.invalidInput "vcatbridge_lockdown: drop_functions must not be NULL")
  | some names => resolveNames db names ∅

section Changes

variable (e : Engine)

/-- What DuckDB throws, as the function passes it on. -/
def engineOutcome (r : Except String Unit × DatabaseInstance) :
    Except LockdownError Unit × DatabaseInstance :=
  (r.1.mapError .engine, r.2)

/-- `DropSystemFunctions`: the entries are resolved and dropped in a transaction of its own. -/
def dropSystemFunctions (names : Option (List (Option String))) (db : DatabaseInstance) :
    Except LockdownError Unit × DatabaseInstance :=
  match resolveSystemFunctions names db with
  | .error err => (.error err, db)
  | .ok entries => engineOutcome (e.dropEntries entries db)

/-- `SetGlobal`. -/
def setGlobal (s : GlobalSetting) (value : s.Value) (db : DatabaseInstance) :
    Except LockdownError Unit × DatabaseInstance :=
  if e.knows s then engineOutcome (e.setOption s value db)
  else (.error (.internal ("vcatbridge_lockdown: unknown setting \"" ++ s.name ++ "\"")), db)

/-! ### The function -/

/-- `ThrowUnlessFiniteMemoryLimit`, with the size that the setter will read again. -/
def finiteMemoryLimit (text : String) : Except LockdownError Nat :=
  if text = "" then
    .error (.invalidInput "vcatbridge_lockdown: memory_limit must not be empty")
  else
    match e.parseMemoryLimit text with
    | .error message => .error (.invalidInput
        ("vcatbridge_lockdown: memory_limit '" ++ text ++ "' is not a size: " ++ message))
    | .ok none => .error (.invalidInput
        ("vcatbridge_lockdown: memory_limit '" ++ text ++
          "' must be a finite size, e.g. '512MB'"))
    | .ok (some bytes) => .ok bytes

/-- What `LockdownFunc` checks before it changes anything. -/
def checkLockdown (autoCommit : Bool) (call : LockdownCall) (more : List LockdownCall)
    (db : DatabaseInstance) : Except LockdownError (Nat × Int) := do
  refuseIf (!autoCommit)
    (.permission "vcatbridge_lockdown: cannot run inside a transaction")
  refuseIf (!more.isEmpty)
    (.invalidInput "vcatbridge_lockdown: call it once, not once per row")
  match call.memoryLimit, call.threads with
  | some text, some threads => do
    refuseIf (db.settings .lockConfiguration)
      (.permission "vcatbridge_lockdown: the configuration is already locked")
    let bytes ← finiteMemoryLimit e text
    pure (bytes, threads)
  | _, _ =>
    .error (.invalidInput "vcatbridge_lockdown: memory_limit and threads must not be NULL")

open Lasting in
/-- The part of `LockdownFunc` after the checks. -/
def lockInstance (bytes : Nat) (threads : Int)
    (dropFunctions : Option (Option (List (Option String)))) :
    Lasting LockdownError DatabaseInstance Unit := do
  let db ← get
  -- throws if the secret manager is already initialized
  if db.settings .allowPersistentSecrets then
    change (setGlobal e .allowPersistentSecrets false)
  if let some names := dropFunctions then
    change (dropSystemFunctions e names)
  -- the directory cannot be changed once external access is off
  change (setGlobal e .tempDirectory "")
  change (setGlobal e .memoryLimit (some bytes))
  change (setGlobal e .threads threads)
  change (setGlobal e .autoloadKnownExtensions false)
  change (setGlobal e .autoinstallKnownExtensions false)
  change (setGlobal e .allowCommunityExtensions false)
  change (setGlobal e .disabledFilesystems "LocalFileSystem")
  change (setGlobal e .enableExternalAccess false)
  change (setGlobal e .lockConfiguration true)

/-- `LockdownFunc` for the rows it is called with; `none` if there is no row. -/
def lockdown (autoCommit : Bool) : List LockdownCall →
    Lasting LockdownError DatabaseInstance (Option String)
  | [] => pure none
  | call :: more => do
    let db ← get
    let checked ← Lasting.ofExcept (checkLockdown e autoCommit call more db)
    lockInstance e checked.1 checked.2 call.dropFunctions
    pure (some "ok")

/-! ### The changes of a call in order -/

/-- A change of an instance. -/
inductive LockdownChange where
  | drop (names : Option (List (Option String)))
  | set (s : GlobalSetting) (value : s.Value)

/-- Make a change, or throw. -/
def LockdownChange.attempt : LockdownChange → DatabaseInstance →
    Except LockdownError Unit × DatabaseInstance
  | drop names => dropSystemFunctions e names
  | set s value => setGlobal e s value

/-- The changes that are made on every call, in order. -/
def settingChanges (bytes : Nat) (threads : Int) : List LockdownChange :=
  [.set .tempDirectory "", .set .memoryLimit (some bytes), .set .threads threads,
    .set .autoloadKnownExtensions false, .set .autoinstallKnownExtensions false,
    .set .allowCommunityExtensions false, .set .disabledFilesystems "LocalFileSystem",
    .set .enableExternalAccess false, .set .lockConfiguration true]

/-- The changes of a call whose arguments are checked. -/
def lockdownChanges (bytes : Nat) (threads : Int)
    (dropFunctions : Option (Option (List (Option String)))) (db : DatabaseInstance) :
    List LockdownChange :=
  (if db.settings .allowPersistentSecrets then [.set .allowPersistentSecrets false] else []) ++
    (dropFunctions.toList.map .drop ++ settingChanges bytes threads)

/-- What the function does after the checks is to make these changes. -/
theorem lockInstance_outcome (bytes : Nat) (threads : Int)
    (dropFunctions : Option (Option (List (Option String)))) (db : DatabaseInstance) :
    (lockInstance e bytes threads dropFunctions).outcome db =
      (Lasting.changes (LockdownChange.attempt e)
        (lockdownChanges bytes threads dropFunctions db)).outcome db := by
  unfold lockInstance
  rw [Lasting.outcome_bind_ok (Lasting.outcome_get db)]
  congr 1
  rw [lockdownChanges]
  generalize db.settings .allowPersistentSecrets = persistent
  cases persistent <;> cases dropFunctions <;>
    simp [settingChanges, Lasting.changes, LockdownChange.attempt]

/-! ### All or nothing -/

/-- What `call` asks for is done in `db`. -/
structure LockedDown (call : LockdownCall) (db : DatabaseInstance) : Prop where
  allowPersistentSecrets : db.settings .allowPersistentSecrets = false
  dropped : ∀ names, call.dropFunctions = some (some names) → ∀ name, some name ∈ names →
    ∀ set, (db.functions set).contains name = false
  tempDirectory : db.settings .tempDirectory = ""
  memoryLimit : ∃ text bytes, call.memoryLimit = some text ∧
    e.parseMemoryLimit text = .ok (some bytes) ∧ db.settings .memoryLimit = some bytes
  threads : call.threads = some (db.settings .threads)
  autoloadKnownExtensions : db.settings .autoloadKnownExtensions = false
  autoinstallKnownExtensions : db.settings .autoinstallKnownExtensions = false
  allowCommunityExtensions : db.settings .allowCommunityExtensions = false
  disabledFilesystems : db.settings .disabledFilesystems = "LocalFileSystem"
  enableExternalAccess : db.settings .enableExternalAccess = false
  lockConfiguration : db.settings .lockConfiguration = true

/-- The call ends with everything done, or throws and leaves the instance as it was. -/
def AllOrNothing (autoCommit : Bool) (call : LockdownCall) (more : List LockdownCall)
    (db : DatabaseInstance) : Prop :=
  (((lockdown e autoCommit (call :: more)).outcome db).1 = .ok (some "ok") ∧
      LockedDown e call ((lockdown e autoCommit (call :: more)).outcome db).2) ∨
    (∃ err, ((lockdown e autoCommit (call :: more)).outcome db).1 = .error err) ∧
      ((lockdown e autoCommit (call :: more)).outcome db).2 = db

/-- The instance as it is accepts the change. -/
def LockdownChange.Accepted : LockdownChange → DatabaseInstance → Prop
  | drop names, db => ∃ entries, resolveSystemFunctions names db = .ok entries ∧
      (e.dropEntries entries db).1 = .ok ()
  | set s value, db => e.knows s = true ∧ (e.setOption s value db).1 = .ok ()

/-- The instance as it is refuses the change, and keeps what it has. -/
def LockdownChange.Refused : LockdownChange → DatabaseInstance → Prop
  | drop names, db => ∀ entries, resolveSystemFunctions names db = .ok entries →
      ∃ message, (e.dropEntries entries db).1 = .error message
  | set s value, db => e.knows s = false ∨ ∃ message, e.setOption s value db = (.error message, db)

/-- There is nothing to change: no name to drop, or the setting has the value. -/
def LockdownChange.InPlace : LockdownChange → DatabaseInstance → Prop
  | drop names, _ => names = some []
  | set s value, db => db.settings s = value

/-- The instance without its temporary directory. -/
def DatabaseInstance.withoutTempDirectory (db : DatabaseInstance) : DatabaseInstance :=
  { db with settings := Function.update db.settings .tempDirectory "" }

/-- What a change sees of the changes before it: the temporary directory is gone. -/
def LockdownChange.sees : LockdownChange → DatabaseInstance → DatabaseInstance
  | drop _, db => db
  | set s _, db =>
    if s = .allowPersistentSecrets ∨ s = .tempDirectory then db else db.withoutTempDirectory

/-- The instance as it is before the call, from the third setting on without its temporary directory,
accepts every change of the call. -/
def AcceptedAtOnce (bytes : Nat) (threads : Int)
    (dropFunctions : Option (Option (List (Option String)))) (db : DatabaseInstance) : Prop :=
  ∀ c ∈ lockdownChanges bytes threads dropFunctions db, c.Accepted e (c.sees db)

/-- The instance as it is before the call refuses a change, and what comes before that is in place. -/
def RefusedAtOnce (bytes : Nat) (threads : Int)
    (dropFunctions : Option (Option (List (Option String)))) (db : DatabaseInstance) : Prop :=
  ∃ before c after, lockdownChanges bytes threads dropFunctions db = before ++ c :: after ∧
    (∀ b ∈ before, b.Accepted e db ∧ b.InPlace db) ∧ c.Refused e db

/-! ### What each change does -/

/-- The part of an instance that a change concerns: a setting, or the functions. -/
def LockdownChange.key : LockdownChange → Option GlobalSetting
  | drop _ => none
  | set s _ => some s

/-- The parts that decide whether a change is accepted. -/
def LockdownChange.reads : LockdownChange → Set (Option GlobalSetting)
  | drop _ => {none}
  | set s _ => {k | ∃ s' ∈ s.reads, k = some s'}

theorem LockdownChange.mem_reads_drop {names : Option (List (Option String))}
    {k : Option GlobalSetting} : k ∈ (LockdownChange.drop names).reads ↔ k = none := Iff.rfl

/-- What an instance has at such a part. -/
def DatabaseInstance.part (db : DatabaseInstance) :
    Option GlobalSetting → (Σ s : GlobalSetting, s.Value) ⊕ (FunctionSet → CISet)
  | none => .inr db.functions
  | some s => .inl ⟨s, db.settings s⟩

theorem DatabaseInstance.part_some {db db' : DatabaseInstance} {s : GlobalSetting} :
    db.part (some s) = db'.part (some s) ↔ db.settings s = db'.settings s := by
  simp [DatabaseInstance.part]

theorem DatabaseInstance.part_none {db db' : DatabaseInstance} :
    db.part none = db'.part none ↔ db.functions = db'.functions := by
  simp [DatabaseInstance.part]

theorem DatabaseInstance.ext_part {db db' : DatabaseInstance} (h : ∀ k, db.part k = db'.part k) :
    db = db' := by
  obtain ⟨settings, functions⟩ := db
  obtain ⟨settings', functions'⟩ := db'
  have hf : functions = functions' := DatabaseInstance.part_none.1 (h none)
  have hs : settings = settings' := funext fun s => DatabaseInstance.part_some.1 (h (some s))
  rw [hf, hs]

variable {e}

theorem engineOutcome_fst_eq_ok {r : Except String Unit × DatabaseInstance} :
    (engineOutcome r).1 = .ok () ↔ r.1 = .ok () := by
  obtain ⟨r | r, db⟩ := r <;> simp [engineOutcome, Except.mapError]

@[simp] theorem engineOutcome_snd (r : Except String Unit × DatabaseInstance) :
    (engineOutcome r).2 = r.2 := rfl

theorem engineOutcome_eq_error {r : Except String Unit × DatabaseInstance} {db : DatabaseInstance} :
    (∃ err, engineOutcome r = (.error err, db)) ↔ ∃ message, r = (.error message, db) := by
  obtain ⟨r | r, db'⟩ := r <;> simp [engineOutcome, Except.mapError]

theorem dropSystemFunctions_of_ok {names : Option (List (Option String))} {db : DatabaseInstance}
    {entries : List SystemFunction} (h : resolveSystemFunctions names db = .ok entries) :
    dropSystemFunctions e names db = engineOutcome (e.dropEntries entries db) := by
  rw [dropSystemFunctions, h]

theorem dropSystemFunctions_of_error {names : Option (List (Option String))} {db : DatabaseInstance}
    {err : LockdownError} (h : resolveSystemFunctions names db = .error err) :
    dropSystemFunctions e names db = (.error err, db) := by
  rw [dropSystemFunctions, h]

/-- A change is made exactly if the instance accepts it. -/
theorem accepts_attempt {c : LockdownChange} {db : DatabaseInstance} :
    Lasting.Accepts (LockdownChange.attempt e) c db ↔ c.Accepted e db := by
  unfold Lasting.Accepts
  cases c with
  | drop names =>
    simp only [LockdownChange.attempt, LockdownChange.Accepted]
    cases h : resolveSystemFunctions names db with
    | error err => simp [dropSystemFunctions_of_error h]
    | ok entries => simp [dropSystemFunctions_of_ok h, engineOutcome_fst_eq_ok]
  | set s value =>
    simp only [LockdownChange.attempt, LockdownChange.Accepted, setGlobal]
    cases e.knows s with
    | true => simp [engineOutcome_fst_eq_ok]
    | false => simp

theorem settings_foldl_dropEntry (entries : List SystemFunction) (db : DatabaseInstance) :
    (entries.foldl DatabaseInstance.dropEntry db).settings = db.settings := by
  induction entries generalizing db with
  | nil => rfl
  | cons f entries ih => exact ih _

theorem settings_dropSystemFunctions (hdoc : e.Documented) (names : Option (List (Option String)))
    (db : DatabaseInstance) : (dropSystemFunctions e names db).2.settings = db.settings := by
  cases h : resolveSystemFunctions names db with
  | error err => rw [dropSystemFunctions_of_error h]
  | ok entries =>
    rw [dropSystemFunctions_of_ok h]
    show (e.dropEntries entries db).2.settings = _
    cases hr : (e.dropEntries entries db).1 with
    | error message => rw [hdoc.rollsBack entries db message hr]
    | ok u => rw [hdoc.drops entries db hr, settings_foldl_dropEntry]

/-- The changes of a call concern different parts of the instance. -/
theorem separate_attempt (hdoc : e.Documented) :
    Lasting.Separate (LockdownChange.attempt e) LockdownChange.key DatabaseInstance.part where
  ext _ _ h := DatabaseInstance.ext_part h
  frame c db k hk := by
    cases c with
    | drop names =>
      cases k with
      | none => exact absurd rfl hk
      | some s =>
        exact DatabaseInstance.part_some.2 (by
          rw [LockdownChange.attempt, settings_dropSystemFunctions hdoc])
    | set s value =>
      simp only [LockdownChange.attempt, setGlobal]
      split_ifs with hknown
      · cases k with
        | none => exact DatabaseInstance.part_none.2 (hdoc.functions s value db)
        | some s' =>
          exact DatabaseInstance.part_some.2
            (hdoc.otherSettings s value db s' fun heq => hk (congrArg some heq))
      · rfl

theorem resolveNames_congr {db db' : DatabaseInstance} (h : db.functions = db'.functions)
    (names : List (Option String)) (seen : CISet) :
    resolveNames db names seen = resolveNames db' names seen := by
  have hfound : db.systemFunctions = db'.systemFunctions := by
    unfold DatabaseInstance.systemFunctions
    rw [h]
  induction names generalizing seen with
  | nil => rfl
  | cons text names ih =>
    cases text with
    | none => rfl
    | some text => simp only [resolveNames, hfound, ih]

/-- Whether a change is accepted depends on few parts of the instance. -/
theorem readsOnly_attempt (hdoc : e.Documented) :
    Lasting.ReadsOnly (LockdownChange.attempt e) DatabaseInstance.part LockdownChange.reads := by
  intro c db db' h
  rw [accepts_attempt, accepts_attempt]
  cases c with
  | drop names =>
    have hf : db.functions = db'.functions := DatabaseInstance.part_none.1 (h none rfl)
    have hres : resolveSystemFunctions names db = resolveSystemFunctions names db' := by
      cases names with
      | none => rfl
      | some names => exact resolveNames_congr hf names ∅
    simp only [LockdownChange.Accepted, hres]
    exact exists_congr fun entries => and_congr_right fun _ =>
      hdoc.readsFunctions entries db db' hf
  | set s value =>
    exact and_congr_right fun _ => hdoc.reads s value db db' fun s' hs' =>
      DatabaseInstance.part_some.1 (h (some s') ⟨s', hs', rfl⟩)

theorem nodup_lockdownChanges (bytes : Nat) (threads : Int)
    (dropFunctions : Option (Option (List (Option String)))) (db : DatabaseInstance) :
    ((lockdownChanges bytes threads dropFunctions db).map LockdownChange.key).Nodup := by
  rw [lockdownChanges]
  generalize db.settings .allowPersistentSecrets = persistent
  cases persistent <;> cases dropFunctions <;>
    simp [settingChanges, LockdownChange.key]

/-- Persistent secrets come first, and only they and the drops come before the temporary directory. -/
theorem pairwise_lockdownChanges (bytes : Nat) (threads : Int)
    (dropFunctions : Option (Option (List (Option String)))) (db : DatabaseInstance) :
    (lockdownChanges bytes threads dropFunctions db).Pairwise fun b c =>
      c.key ≠ some .allowPersistentSecrets ∧
        (c.key = some .tempDirectory → b.key = none ∨ b.key = some .allowPersistentSecrets) := by
  rw [lockdownChanges]
  generalize db.settings .allowPersistentSecrets = persistent
  cases persistent <;> cases dropFunctions <;>
    simp [settingChanges, LockdownChange.key]

theorem settings_withoutTempDirectory {db : DatabaseInstance} {s : GlobalSetting}
    (h : s ≠ .tempDirectory) : db.withoutTempDirectory.settings s = db.settings s :=
  Function.update_of_ne h _ _

theorem tempDirectory_withoutTempDirectory (db : DatabaseInstance) :
    db.withoutTempDirectory.settings .tempDirectory = "" := rfl

/-! ### Dropping the functions -/

/-- An entry that is not dropped, or that was not there, is looked up as before. -/
theorem contains_foldl_dropEntry (entries : List SystemFunction) (db : DatabaseInstance)
    (set : FunctionSet) (name : String) :
    ((entries.foldl DatabaseInstance.dropEntry db).functions set).contains name =
      ((db.functions set).contains name &&
        !entries.any fun f => decide (f.set = set) && ciEq name f.name) := by
  induction entries generalizing db with
  | nil => simp
  | cons f entries ih =>
    rw [List.foldl_cons, ih, List.any_cons]
    by_cases hset : f.set = set
    · subst hset
      simp only [DatabaseInstance.dropEntry, Function.update_self, CIMap.contains_erase, ciEq,
        decide_true, Bool.true_and, Bool.not_or]
      ac_rfl
    · have hne : set ≠ f.set := fun h => hset h.symm
      simp [DatabaseInstance.dropEntry, Function.update_of_ne hne, hset]

/-- The entries of a name have its spelling up to case. -/
theorem mem_systemFunctions {db : DatabaseInstance} {text : String} {f : SystemFunction} :
    f ∈ db.systemFunctions text → fold f.name = fold text := by
  intro h
  obtain ⟨set, -, h⟩ := List.mem_filterMap.1 h
  obtain ⟨⟨name, u⟩, he, rfl⟩ := Option.map_eq_some_iff.1 h
  exact CIMap.fold_of_entryAt he

/-- A name that is in one of the sets has an entry there. -/
theorem exists_systemFunctions {db : DatabaseInstance} {text : String} {set : FunctionSet}
    (h : (db.functions set).contains text = true) :
    ∃ f ∈ db.systemFunctions text, f.set = set := by
  rw [CIMap.contains_eq_isSome_entryAt, Option.isSome_iff_exists] at h
  obtain ⟨entry, he⟩ := h
  refine ⟨⟨set, entry.1⟩, List.mem_filterMap.2 ⟨set, mem_functionSets set, ?_⟩, rfl⟩
  rw [he]
  rfl

/-- Every entry of a name of the list is found, unless the name was already seen. -/
theorem resolveNames_complete {db : DatabaseInstance} {names : List (Option String)}
    {seen : CISet} {entries : List SystemFunction} (h : resolveNames db names seen = .ok entries)
    {name : String} (hn : some name ∈ names) (hs : seen.contains name = false) {set : FunctionSet}
    (hset : (db.functions set).contains name = true) :
    ∃ f ∈ entries, f.set = set ∧ fold f.name = fold name := by
  induction names generalizing seen entries with
  | nil => cases hn
  | cons text names ih =>
    cases text with
    | none => cases h
    | some text =>
      unfold resolveNames at h
      split_ifs at h with hseen
      · rcases List.mem_cons.1 hn with heq | hn
        · obtain rfl := Option.some.inj heq
          rw [hs] at hseen
          cases hseen
        · exact ih h hn hs
      · obtain ⟨_, -, h⟩ := bind_eq_ok h
        obtain ⟨rest, hrest, h⟩ := bind_eq_ok h
        obtain rfl := Except.ok.inj h
        by_cases hf : fold name = fold text
        · rw [CIMap.contains_congr _ hf] at hset
          obtain ⟨f, hmem, rfl⟩ := exists_systemFunctions hset
          exact ⟨f, List.mem_append_left _ hmem, rfl, (mem_systemFunctions hmem).trans hf.symm⟩
        · have hn' : some name ∈ names := by
            refine (List.mem_cons.1 hn).resolve_left fun heq => hf ?_
            rw [Option.some.inj heq]
          have hs' : (seen.add text).contains name = false := by
            rw [CISet.add, CIMap.contains_insert, hs, decide_eq_false hf]
            rfl
          obtain ⟨f, hmem, hf⟩ := ih hrest hn' hs'
          exact ⟨f, List.mem_append_right _ hmem, hf⟩

/-- The names of the list have no entry left. -/
theorem dropSystemFunctions_dropped (hdoc : e.Documented) {names : Option (List (Option String))}
    {db : DatabaseInstance} (h : (LockdownChange.drop names).Accepted e db)
    {list : List (Option String)} (hl : names = some list) {name : String} (hn : some name ∈ list)
    (set : FunctionSet) :
    ((dropSystemFunctions e names db).2.functions set).contains name = false := by
  subst hl
  obtain ⟨entries, hres, hok⟩ := h
  rw [dropSystemFunctions_of_ok hres]
  show ((e.dropEntries entries db).2.functions set).contains name = false
  rw [hdoc.drops entries db hok, contains_foldl_dropEntry]
  cases hset : (db.functions set).contains name with
  | false => rfl
  | true =>
    obtain ⟨f, hmem, hfset, hf⟩ := resolveNames_complete hres hn rfl hset
    rw [List.any_eq_true.2 ⟨f, hmem, by simp [hfset, ciEq, hf]⟩]
    rfl

/-- A name that is resolved is in one of the sets. -/
theorem exists_contains_of_resolve {db : DatabaseInstance} {text : String}
    {names : List (Option String)} {entries : List SystemFunction}
    (h : resolveSystemFunctions (some (some text :: names)) db = .ok entries) :
    ∃ set, (db.functions set).contains text = true := by
  have h' : (refuseIf (db.systemFunctions text).isEmpty _ >>= fun _ =>
      resolveNames db names ((∅ : CISet).add text) >>= fun rest =>
        pure (db.systemFunctions text ++ rest)) = Except.ok entries := h
  obtain ⟨_, hfound, -⟩ := bind_eq_ok h'
  have hne : db.systemFunctions text ≠ [] := by
    intro hnil
    rw [hnil] at hfound
    cases hfound
  obtain ⟨f, hf⟩ := List.exists_mem_of_ne_nil _ hne
  obtain ⟨set, -, hf⟩ := List.mem_filterMap.1 hf
  obtain ⟨entry, he, -⟩ := Option.map_eq_some_iff.1 hf
  exact ⟨set, by rw [CIMap.contains_eq_isSome_entryAt, he]; rfl⟩

/-! ### What leaves the instance as it is -/

/-- A change is made and leaves the instance as it was exactly if it is in place. -/
theorem attempt_eq_ok_self (hdoc : e.Documented) {c : LockdownChange} {db : DatabaseInstance} :
    c.attempt e db = (.ok (), db) ↔ c.Accepted e db ∧ c.InPlace db := by
  rw [← accepts_attempt, Lasting.Accepts, Prod.ext_iff]
  refine and_congr_right fun hok => ?_
  show (c.attempt e db).2 = db ↔ _
  have hacc : c.Accepted e db := accepts_attempt.1 hok
  cases c with
  | drop names =>
    constructor
    · intro hsame
      obtain ⟨entries, hres, -⟩ := id hacc
      rcases names with - | (- | ⟨(- | text), names⟩)
      · cases hres
      · rfl
      · cases hres
      · -- the first name was in one of the sets, and is in none any more
        obtain ⟨set, hset⟩ := exists_contains_of_resolve hres
        have hgone := dropSystemFunctions_dropped hdoc hacc rfl List.mem_cons_self set
        rw [show (dropSystemFunctions e _ db).2 = db from hsame, hset] at hgone
        cases hgone
    · rintro rfl
      have hres : resolveSystemFunctions (some []) db = .ok [] := rfl
      obtain ⟨entries, hres', hdrop⟩ := hacc
      obtain rfl := Except.ok.inj (hres.symm.trans hres')
      rw [LockdownChange.attempt, dropSystemFunctions_of_ok hres]
      exact hdoc.drops [] db hdrop
  | set s value =>
    obtain ⟨hknown, hset⟩ := hacc
    have hvalue := hdoc.sets s value db hset
    simp only [LockdownChange.attempt, LockdownChange.InPlace, setGlobal, if_pos hknown]
    constructor
    · intro hsame
      rwa [show (e.setOption s value db).2 = db from hsame] at hvalue
    · intro hplace
      refine DatabaseInstance.ext_part fun k => ?_
      cases k with
      | none => exact DatabaseInstance.part_none.2 (hdoc.functions s value db)
      | some s' =>
        refine DatabaseInstance.part_some.2 ?_
        by_cases heq : s' = s
        · subst heq
          exact hvalue.trans hplace.symm
        · exact hdoc.otherSettings s value db s' heq

/-- A change throws and leaves the instance as it was exactly if it is refused. -/
theorem attempt_eq_error_self (hdoc : e.Documented) {c : LockdownChange} {db : DatabaseInstance} :
    (∃ err, c.attempt e db = (.error err, db)) ↔ c.Refused e db := by
  cases c with
  | drop names =>
    simp only [LockdownChange.attempt, LockdownChange.Refused]
    cases h : resolveSystemFunctions names db with
    | error err => simp [dropSystemFunctions_of_error h]
    | ok entries =>
      rw [dropSystemFunctions_of_ok h, engineOutcome_eq_error]
      constructor
      · rintro ⟨message, hdrop⟩ entries' hres
        obtain rfl := Except.ok.inj hres
        exact ⟨message, by rw [hdrop]⟩
      · intro hdrop
        obtain ⟨message, hmessage⟩ := hdrop entries rfl
        exact ⟨message, Prod.ext hmessage (hdoc.rollsBack entries db message hmessage)⟩
  | set s value =>
    simp only [LockdownChange.attempt, LockdownChange.Refused, setGlobal]
    cases e.knows s with
    | true => simp [engineOutcome_eq_error]
    | false => simp

theorem failsEarly_attempt (hdoc : e.Documented) {bytes : Nat} {threads : Int}
    {dropFunctions : Option (Option (List (Option String)))} {db : DatabaseInstance} :
    Lasting.FailsEarly (LockdownChange.attempt e)
        (lockdownChanges bytes threads dropFunctions db) db ↔
      RefusedAtOnce e bytes threads dropFunctions db := by
  simp only [Lasting.FailsEarly, RefusedAtOnce, attempt_eq_ok_self hdoc, attempt_eq_error_self hdoc]

/-! ### What a change finds -/

theorem part_set_of_accepts (hdoc : e.Documented) {s : GlobalSetting} {value : s.Value}
    {db : DatabaseInstance}
    (h : Lasting.Accepts (LockdownChange.attempt e) (.set s value) db) :
    ((LockdownChange.set s value).attempt e db).2.settings s = value := by
  obtain ⟨hknown, hok⟩ := accepts_attempt.1 h
  rw [LockdownChange.attempt, setGlobal, if_pos hknown]
  exact hdoc.sets s value db hok

/-- When the turn of a change comes, it finds what the instance had before the call; only the temporary
directory may be gone. -/
theorem sees_attempt (hdoc : e.Documented) (bytes : Nat) (threads : Int)
    (dropFunctions : Option (Option (List (Option String)))) (db : DatabaseInstance) :
    Lasting.Sees (LockdownChange.attempt e) DatabaseInstance.part LockdownChange.reads
      LockdownChange.sees (lockdownChanges bytes threads dropFunctions db) db := by
  intro before c after h hok k hk
  have hnodup := nodup_lockdownChanges bytes threads dropFunctions db
  have hpair := pairwise_lockdownChanges bytes threads dropFunctions db
  have htemp : .set .tempDirectory "" ∈ lockdownChanges bytes threads dropFunctions db :=
    List.mem_append_right _ (List.mem_append_right _ List.mem_cons_self)
  rw [h] at hnodup hpair htemp
  rw [List.pairwise_append, List.pairwise_cons] at hpair
  obtain ⟨-, ⟨hafter, -⟩, hbefore⟩ := hpair
  rw [List.map_append, List.nodup_append] at hnodup
  -- what no earlier change concerns is as it was
  have hframe : ∀ k, (∀ b ∈ before, k ≠ b.key) →
      ((Lasting.changes (LockdownChange.attempt e) before).outcome db).2.part k = db.part k :=
    fun k hk => (separate_attempt hdoc).frame_changes hk
  have hown : ∀ b ∈ before, c.key ≠ b.key := fun b hb heq =>
    hnodup.2.2 _ (List.mem_map_of_mem hb) _ List.mem_cons_self heq.symm
  cases c with
  | drop names =>
    obtain rfl := LockdownChange.mem_reads_drop.1 hk
    exact hframe none hown
  | set s value =>
    obtain ⟨s', hs', rfl⟩ := hk
    by_cases hearly : s = .allowPersistentSecrets ∨ s = .tempDirectory
    · rw [LockdownChange.sees, if_pos hearly]
      refine hframe _ fun b hb heq => ?_
      have hb' := hbefore b hb _ List.mem_cons_self
      rcases hearly with rfl | rfl
      · exact hb'.1 rfl
      · rcases hs' with rfl | rfl | ⟨-, rfl⟩
        · exact hown b hb heq
        · exact hown b hb heq
        · rcases hb'.2 rfl with hkey | hkey <;> rw [hkey] at heq <;> cases heq
    · rw [LockdownChange.sees, if_neg hearly]
      rw [not_or] at hearly
      obtain rfl | hne := eq_or_ne s' .tempDirectory
      · -- the directory was set before
        have hmem : .set .tempDirectory "" ∈ before := by
          refine (List.mem_append.1 htemp).resolve_right fun hmem => ?_
          rcases List.mem_cons.1 hmem with heq | hmem
          · injection heq with heq
            exact hearly.2 heq.symm
          · rcases (hafter _ hmem).2 rfl with hkey | hkey
            · cases hkey
            · exact hearly.1 (Option.some.inj hkey)
        refine DatabaseInstance.part_some.2 ?_
        rw [tempDirectory_withoutTempDirectory]
        have := (separate_attempt hdoc).part_of_changes hnodup.1 hok hmem
          (P := fun p => p = .inl ⟨.tempDirectory, ""⟩) fun db hacc => by
            have hvalue := part_set_of_accepts hdoc hacc
            simpa [DatabaseInstance.part, LockdownChange.key] using hvalue
        simpa [DatabaseInstance.part, LockdownChange.key] using this
      · have heq : s' = s := by
          rcases hs' with heq | heq | ⟨heq, -⟩
          · exact heq
          · exact absurd heq hne
          · exact absurd heq hearly.2
        subst heq
        rw [hframe (some s') hown]
        exact DatabaseInstance.part_some.2 (settings_withoutTempDirectory hne).symm

/-! ### The whole call -/

theorem checkLockdown_eq_ok {autoCommit : Bool} {call : LockdownCall} {more : List LockdownCall}
    {db : DatabaseInstance} {bytes : Nat} {threads : Int}
    (h : checkLockdown e autoCommit call more db = .ok (bytes, threads)) :
    (∃ text, call.memoryLimit = some text ∧ e.parseMemoryLimit text = .ok (some bytes)) ∧
      call.threads = some threads := by
  obtain ⟨_, -, h⟩ := bind_eq_ok h
  obtain ⟨_, -, h⟩ := bind_eq_ok h
  cases hm : call.memoryLimit with
  | none =>
    rw [hm] at h
    cases h
  | some text =>
    cases ht : call.threads with
    | none =>
      rw [hm, ht] at h
      cases h
    | some threads' =>
      rw [hm, ht] at h
      obtain ⟨_, -, h⟩ := bind_eq_ok h
      obtain ⟨bytes', hb, h⟩ := bind_eq_ok h
      obtain ⟨rfl, rfl⟩ := Prod.mk.inj (Except.ok.inj h)
      refine ⟨⟨text, rfl, ?_⟩, rfl⟩
      unfold finiteMemoryLimit at hb
      split_ifs at hb
      cases hp : e.parseMemoryLimit text with
      | error message =>
        rw [hp] at hb
        cases hb
      | ok limit =>
        rw [hp] at hb
        cases limit with
        | none => cases hb
        | some bytes => rw [Except.ok.inj hb]

/-- What the function returns and leaves once its arguments are accepted. -/
theorem lockdown_outcome_of_checked {autoCommit : Bool} {call : LockdownCall}
    {more : List LockdownCall} {db : DatabaseInstance} {bytes : Nat} {threads : Int}
    (h : checkLockdown e autoCommit call more db = .ok (bytes, threads)) :
    (lockdown e autoCommit (call :: more)).outcome db =
      ((fun _ => some "ok") <$> ((Lasting.changes (LockdownChange.attempt e)
          (lockdownChanges bytes threads call.dropFunctions db)).outcome db).1,
        ((Lasting.changes (LockdownChange.attempt e)
          (lockdownChanges bytes threads call.dropFunctions db)).outcome db).2) := by
  rw [lockdown, Lasting.outcome_bind_ok (Lasting.outcome_get db), h,
    Lasting.outcome_bind_ok (Lasting.outcome_ofExcept _ db), ← lockInstance_outcome]
  cases hout : (lockInstance e bytes threads call.dropFunctions).outcome db with
  | mk r db' =>
    cases r with
    | error err => rw [Lasting.outcome_bind_error hout]; rfl
    | ok u => rw [Lasting.outcome_bind_ok hout]; rfl

/-- A call whose arguments are refused changes nothing. -/
theorem lockdown_outcome_of_refused {autoCommit : Bool} {call : LockdownCall}
    {more : List LockdownCall} {db : DatabaseInstance} {err : LockdownError}
    (h : checkLockdown e autoCommit call more db = .error err) :
    (lockdown e autoCommit (call :: more)).outcome db = (.error err, db) := by
  rw [lockdown, Lasting.outcome_bind_ok (Lasting.outcome_get db), h,
    Lasting.outcome_bind_error (Lasting.outcome_ofExcept _ db)]

/-- If every change is made, all of them are done in the end. -/
theorem lockedDown_of_changes (hdoc : e.Documented) {autoCommit : Bool} {call : LockdownCall}
    {more : List LockdownCall} {db : DatabaseInstance} {bytes : Nat} {threads : Int}
    (h : checkLockdown e autoCommit call more db = .ok (bytes, threads))
    (hgo : ((Lasting.changes (LockdownChange.attempt e)
      (lockdownChanges bytes threads call.dropFunctions db)).outcome db).1 = .ok ()) :
    LockedDown e call ((Lasting.changes (LockdownChange.attempt e)
      (lockdownChanges bytes threads call.dropFunctions db)).outcome db).2 := by
  have hnodup := nodup_lockdownChanges bytes threads call.dropFunctions db
  generalize hdb' : ((Lasting.changes (LockdownChange.attempt e)
    (lockdownChanges bytes threads call.dropFunctions db)).outcome db).2 = db'
  -- a setting that is set on every call
  have hset : ∀ (s : GlobalSetting) (value : s.Value),
      .set s value ∈ lockdownChanges bytes threads call.dropFunctions db →
        db'.settings s = value := by
    intro s value hmem
    have := (separate_attempt hdoc).part_of_changes hnodup hgo hmem
      (P := fun p => p = .inl ⟨s, value⟩) (by
        intro db hacc
        have hvalue := part_set_of_accepts hdoc hacc
        simpa [DatabaseInstance.part, LockdownChange.key] using hvalue)
    rw [hdb'] at this
    simpa [DatabaseInstance.part, LockdownChange.key] using this
  have halways : ∀ (s : GlobalSetting) (value : s.Value), .set s value ∈ settingChanges bytes threads →
      db'.settings s = value := fun s value hmem =>
    hset s value (List.mem_append_right _ (List.mem_append_right _ hmem))
  obtain ⟨⟨text, htext, hparse⟩, hthreads⟩ := checkLockdown_eq_ok h
  refine ⟨?_, ?_, halways _ _ (by simp [settingChanges]),
    ⟨text, bytes, htext, hparse, halways _ _ (by simp [settingChanges])⟩, ?_,
    halways _ _ (by simp [settingChanges]), halways _ _ (by simp [settingChanges]),
    halways _ _ (by simp [settingChanges]), halways _ _ (by simp [settingChanges]),
    halways _ _ (by simp [settingChanges]), halways _ _ (by simp [settingChanges])⟩
  · cases hp : db.settings .allowPersistentSecrets with
    | true => exact hset _ _ (by simp [lockdownChanges, hp])
    | false =>
      -- the setting is off already, and no change concerns it
      have hother : ∀ c ∈ lockdownChanges bytes threads call.dropFunctions db,
          some GlobalSetting.allowPersistentSecrets ≠ c.key := by
        intro c hc
        rw [lockdownChanges, hp] at hc
        rcases List.mem_append.1 hc with hc | hc
        · cases hc
        rcases List.mem_append.1 hc with hc | hc
        · obtain ⟨names, -, rfl⟩ := List.mem_map.1 hc
          exact nofun
        · simp only [settingChanges, List.mem_cons, List.not_mem_nil, or_false] at hc
          rcases hc with rfl | rfl | rfl | rfl | rfl | rfl | rfl | rfl | rfl <;>
            simp [LockdownChange.key]
      have hframe := (separate_attempt hdoc).frame_changes (s := db) hother
      rw [hdb'] at hframe
      rw [DatabaseInstance.part_some.1 hframe, hp]
  · intro names hnames name hname set
    have hmem : .drop (some names) ∈ lockdownChanges bytes threads call.dropFunctions db := by
      simp [lockdownChanges, hnames]
    have := (separate_attempt hdoc).part_of_changes hnodup hgo hmem
      (P := fun p => ∃ functions, p = .inr functions ∧ (functions set).contains name = false) (by
        intro db hacc
        exact ⟨_, rfl, dropSystemFunctions_dropped hdoc (accepts_attempt.1 hacc) rfl hname set⟩)
    rw [hdb'] at this
    obtain ⟨functions, heq, hfalse⟩ := this
    obtain rfl := Sum.inr.inj heq
    exact hfalse
  · rw [halways .threads threads (by simp [settingChanges]), hthreads]

/-- **The call is all or nothing exactly if, once its arguments have passed the checks, the instance as
it is accepts every change of the call, or refuses one and what comes before that is in place.** -/
theorem lockdown_allOrNothing_iff (hdoc : e.Documented) (autoCommit : Bool) (call : LockdownCall)
    (more : List LockdownCall) (db : DatabaseInstance) :
    AllOrNothing e autoCommit call more db ↔
      ∀ bytes threads, checkLockdown e autoCommit call more db = .ok (bytes, threads) →
        AcceptedAtOnce e bytes threads call.dropFunctions db ∨
          RefusedAtOnce e bytes threads call.dropFunctions db := by
  unfold AllOrNothing
  cases h : checkLockdown e autoCommit call more db with
  | error err =>
    rw [lockdown_outcome_of_refused h]
    refine iff_of_true (.inr ⟨⟨err, rfl⟩, rfl⟩) fun bytes threads hok => ?_
    cases hok
  | ok checked =>
    obtain ⟨bytes, threads⟩ := checked
    have hiff := (separate_attempt hdoc).changes_undivided_iff (readsOnly_attempt hdoc) (s := db)
      (nodup_lockdownChanges bytes threads call.dropFunctions db)
      (sees_attempt hdoc bytes threads call.dropFunctions db)
    simp only [accepts_attempt, failsEarly_attempt hdoc] at hiff
    rw [lockdown_outcome_of_checked h]
    constructor
    · intro hall bytes' threads' hok
      obtain ⟨rfl, rfl⟩ := Prod.mk.inj (Except.ok.inj hok)
      refine hiff.1 ?_
      cases hr : ((Lasting.changes (LockdownChange.attempt e)
          (lockdownChanges bytes threads call.dropFunctions db)).outcome db).1 with
      | ok u => exact .inl rfl
      | error err =>
        rw [hr] at hall
        rcases hall with ⟨hok, -⟩ | ⟨-, hback⟩
        · cases hok
        · exact .inr ⟨⟨err, rfl⟩, hback⟩
    · intro hcond
      rcases hiff.2 (hcond bytes threads rfl) with hgo | ⟨⟨err, herr⟩, hback⟩
      · refine .inl ⟨?_, lockedDown_of_changes hdoc h hgo⟩
        rw [hgo]
        rfl
      · refine .inr ⟨⟨err, ?_⟩, hback⟩
        rw [herr]
        rfl

namespace Sample

/-- An engine that takes every memory limit for 512 MB and refuses no change. -/
def willing : Engine where
  parseMemoryLimit _ := .ok (some 512000000)
  knows _ := true
  setOption s value db := (.ok (), { db with settings := Function.update db.settings s value })
  dropEntries entries db := (.ok (), entries.foldl DatabaseInstance.dropEntry db)

theorem willing_documented : willing.Documented where
  sets s value db _ := Function.update_self s value db.settings
  otherSettings s value db s' h := Function.update_of_ne h value db.settings
  functions _ _ _ := rfl
  reads _ _ _ _ _ := Iff.rfl
  drops _ _ _ := rfl
  rollsBack _ _ _ h := by cases h
  readsFunctions _ _ _ _ := Iff.rfl

/-- A setting as it is when DuckDB starts. -/
def defaults : (s : GlobalSetting) → s.Value
  | .allowPersistentSecrets => true
  | .tempDirectory => ".tmp"
  | .memoryLimit => some 8000000000
  | .threads => (8 : Int)
  | .autoloadKnownExtensions => true
  | .autoinstallKnownExtensions => true
  | .allowCommunityExtensions => true
  | .disabledFilesystems => ""
  | .enableExternalAccess => true
  | .lockConfiguration => false

/-- An instance with the default settings and without functions. -/
def started : DatabaseInstance := ⟨defaults, fun _ => ∅⟩

/-- `SELECT vcatbridge_lockdown('512MB', 2)`. -/
def twoArguments : LockdownCall := ⟨some "512MB", some 2, none⟩

/-- `SELECT vcatbridge_lockdown('512MB', 2, ['no_such_fn'])`. -/
def unknownName : LockdownCall := ⟨some "512MB", some 2, some (some [some "no_such_fn"])⟩

end Sample

/-- A call that nothing of is refused locks the instance down. -/
theorem lockdown_allOrNothing_iff_twoArguments :
    AllOrNothing Sample.willing true Sample.twoArguments [] Sample.started := by
  refine (lockdown_allOrNothing_iff Sample.willing_documented true Sample.twoArguments []
    Sample.started).2 fun bytes threads _ => .inl fun c hc => ?_
  cases c with
  | set s value => exact ⟨rfl, rfl⟩
  | drop names =>
    exfalso
    simp [lockdownChanges, settingChanges, Sample.twoArguments] at hc

/-- The call of an unknown function throws, and persistent secrets are off. -/
theorem not_allOrNothing :
    ¬ AllOrNothing Sample.willing true Sample.unknownName [] Sample.started := by
  rintro (⟨hok, -⟩ | ⟨-, hback⟩)
  · cases hok
  · have hsecrets := congrArg (fun db => db.settings .allowPersistentSecrets) hback
    cases hsecrets

/-- While persistent secrets are on and can be switched off, no refusal comes early: the call is all or
nothing only if nothing is refused. -/
theorem not_refusedAtOnce_of_persistentSecrets {bytes : Nat} {threads : Int}
    {dropFunctions : Option (Option (List (Option String)))} {db : DatabaseInstance}
    (hon : db.settings .allowPersistentSecrets = true)
    (hoff : (LockdownChange.set .allowPersistentSecrets false).Accepted e db) :
    ¬ RefusedAtOnce e bytes threads dropFunctions db := by
  rintro ⟨before, c, after, h, hbefore, hc⟩
  rw [lockdownChanges, hon] at h
  cases before with
  | nil =>
    obtain ⟨rfl, -⟩ := List.cons.inj h
    obtain ⟨hknown, hok⟩ := hoff
    rcases hc with hc | ⟨message, hc⟩
    · rw [hknown] at hc
      cases hc
    · rw [hc] at hok
      cases hok
  | cons b before =>
    -- switching them off is a change
    obtain ⟨rfl, -⟩ := List.cons.inj h
    have hplace : db.settings .allowPersistentSecrets = false :=
      (hbefore _ List.mem_cons_self).2
    rw [hon] at hplace
    cases hplace

end Changes

end VirtualCatalog
