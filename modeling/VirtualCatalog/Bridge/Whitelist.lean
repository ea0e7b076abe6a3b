import VirtualCatalog.Bridge.LastWriter

/-!
# Which calls cross

A call of a function crosses to the source if the whitelist has its name.  The whitelist is two
sets and a flag; the lists of functions that an owner sets one by one or in a document are its
history, of which only the last edit that names a function counts, and nothing before the last
edit that replaces the whole list.

* `WhitelistEdit`, `WhitelistEvent` : an edit, and what it does one name after another.
* `lastNamed`, `keptBuiltins` : what a history says about a name.
* `DuckDBSource.acceptsCall` : `AcceptsCall`.
* `acceptsCall_iff` : a call is accepted as the history says, whatever the history is.
* `Registry.whitelist_replays` : the whitelist of a policy is that of the edits committed to it.
-/

namespace VirtualCatalog

/-! ### The history of a whitelist -/

/-- What an edit does, one name after another. -/
inductive WhitelistEvent where
  /-- The whole list is replaced. -/
  | replaced (builtins : Bool)
  | named (allow : Bool) (name : String)

/-- An edit of the whitelist: a list of `set_policy`, or a whole document. -/
inductive WhitelistEdit where
  | list (op : PolicyListOp) (names : List String)
  | document (functions : PolicyFunctions)

/-- The events of an edit, in order. -/
def WhitelistEdit.events : WhitelistEdit → List WhitelistEvent
  | list op names => (if op = .set then [.replaced false] else []) ++
      names.map (.named (decide (op ≠ .remove)))
  | document functions => .replaced functions.builtins ::
      (functions.add.map (.named true) ++ functions.remove.map (.named false))

/-- The whitelist after an edit. -/
def WhitelistEdit.apply (functions : FunctionGrants) : WhitelistEdit → FunctionGrants
  | list op names => applyFunctionList functions op names
  | document config => applyFunctionList
      (applyFunctionList ⟨config.builtins, ∅, ∅⟩ .add config.add) .remove config.remove

/-- What the whole list is replaced with: whether the builtins are kept. -/
def WhitelistEvent.replacedWith : WhitelistEvent → Option Bool
  | replaced builtins => some builtins
  | named _ _ => none

/-- Whether the event allows `n`, if it names it. -/
def WhitelistEvent.allows (n : String) : WhitelistEvent → Option Bool
  | replaced _ => none
  | named allow m => if ciEq n m then some allow else none

/-- The events since the last replacement, the newest first. -/
def sinceReplaced (events : List WhitelistEvent) : List WhitelistEvent :=
  events.reverse.takeWhile fun e => e.replacedWith.isNone

/-- Whether the last event since the last replacement that names `n` allows it, if there is one. -/
def lastNamed (n : String) (events : List WhitelistEvent) : Option Bool :=
  (sinceReplaced events).findSome? (WhitelistEvent.allows n)

/-- Whether the last replacement kept the builtins; an empty policy has them. -/
def keptBuiltins (events : List WhitelistEvent) : Bool :=
  (events.reverse.findSome? WhitelistEvent.replacedWith).getD true

section

variable (n m : String) (allow builtins : Bool) (events : List WhitelistEvent)

@[simp] theorem lastNamed_nil : lastNamed n [] = none := rfl

@[simp] theorem keptBuiltins_nil : keptBuiltins [] = true := rfl

@[simp] theorem lastNamed_replaced : lastNamed n (events ++ [.replaced builtins]) = none := by
  simp [lastNamed, sinceReplaced, WhitelistEvent.replacedWith]

@[simp] theorem lastNamed_named : lastNamed n (events ++ [.named allow m]) =
    if ciEq n m then some allow else lastNamed n events := by
  simp only [lastNamed, sinceReplaced, List.reverse_append, List.reverse_singleton,
    List.singleton_append, List.takeWhile_cons, WhitelistEvent.replacedWith, Option.isNone_none,
    if_true, List.findSome?_cons, WhitelistEvent.allows]
  split_ifs <;> rfl

@[simp] theorem keptBuiltins_replaced :
    keptBuiltins (events ++ [.replaced builtins]) = builtins := by
  rw [keptBuiltins, List.reverse_append]
  rfl

@[simp] theorem keptBuiltins_named :
    keptBuiltins (events ++ [.named allow m]) = keptBuiltins events := by
  rw [keptBuiltins, List.reverse_append]
  rfl

end

/-! ### The state of a history -/

/-- The whitelist after one event. -/
def WhitelistEvent.apply (functions : FunctionGrants) : WhitelistEvent → FunctionGrants
  | replaced builtins => ⟨builtins, ∅, ∅⟩
  | named true n =>
    { functions with allowed := functions.allowed.add n
                     disallowed := functions.disallowed.erase n }
  | named false n =>
    { functions with disallowed := functions.disallowed.add n
                     allowed := functions.allowed.erase n }

/-- An edit is its events, one after another. -/
theorem WhitelistEdit.apply_eq (functions : FunctionGrants) (edit : WhitelistEdit) :
    edit.apply functions = edit.events.foldl WhitelistEvent.apply functions := by
  have names : ∀ (op : PolicyListOp) (ns : List String) (f : FunctionGrants), op ≠ .set →
      applyFunctionList f op ns =
        (ns.map (.named (decide (op ≠ .remove)))).foldl WhitelistEvent.apply f := by
    intro op ns f hop
    rw [applyFunctionList, if_neg hop, List.foldl_map]
    refine congrArg (fun g => ns.foldl g f) (funext fun f => funext fun n => ?_)
    by_cases hr : op = .remove
    · rw [if_pos hr, decide_eq_false (not_not.2 hr)]
      rfl
    · rw [if_neg hr, decide_eq_true hr]
      rfl
  have set : ∀ (ns : List String) (f : FunctionGrants),
      applyFunctionList f .set ns = applyFunctionList ⟨false, ∅, ∅⟩ .add ns := fun _ _ => rfl
  cases edit with
  | list op ns =>
    by_cases hop : op = .set
    · subst hop
      exact (set ns functions).trans (names .add ns _ (by decide))
    · show applyFunctionList functions op ns = _
      rw [names op ns functions hop, WhitelistEdit.events, if_neg hop, List.nil_append]
  | document config =>
    show applyFunctionList (applyFunctionList _ .add config.add) .remove config.remove = _
    rw [names .add _ _ (by decide), names .remove _ _ (by decide), WhitelistEdit.events, List.foldl_cons,
      List.foldl_append]
    rfl

/-- The two sets and the flag say what the history says. -/
structure FunctionGrants.Tells (functions : FunctionGrants) (events : List WhitelistEvent) :
    Prop where
  allowed : ∀ n, functions.allowed.contains n = decide (lastNamed n events = some true)
  disallowed : ∀ n, functions.disallowed.contains n = decide (lastNamed n events = some false)
  builtins : functions.builtins = keptBuiltins events

theorem FunctionGrants.Tells.event {functions : FunctionGrants} {events : List WhitelistEvent}
    (h : functions.Tells events) (e : WhitelistEvent) :
    (e.apply functions).Tells (events ++ [e]) := by
  cases e with
  | replaced builtins =>
    refine ⟨fun n => ?_, fun n => ?_, (keptBuiltins_replaced _ _).symm⟩
    · rw [lastNamed_replaced]
      rfl
    · rw [lastNamed_replaced]
      rfl
  | named allow m =>
    have key : ∀ n, decide (fold n = fold m) = ciEq n m := fun _ => rfl
    cases allow with
    | true =>
      refine ⟨fun n => ?_, fun n => ?_, h.builtins.trans (keptBuiltins_named _ _ _).symm⟩
      · show (functions.allowed.add m).contains n = _
        rw [CISet.add, CIMap.contains_insert, key, h.allowed, lastNamed_named]
        cases ciEq n m <;> simp
      · show (functions.disallowed.erase m).contains n = _
        rw [CIMap.contains_erase, key, h.disallowed, lastNamed_named]
        cases ciEq n m <;> simp
    | false =>
      refine ⟨fun n => ?_, fun n => ?_, h.builtins.trans (keptBuiltins_named _ _ _).symm⟩
      · show (functions.allowed.erase m).contains n = _
        rw [CIMap.contains_erase, key, h.allowed, lastNamed_named]
        cases ciEq n m <;> simp
      · show (functions.disallowed.add m).contains n = _
        rw [CISet.add, CIMap.contains_insert, key, h.disallowed, lastNamed_named]
        cases ciEq n m <;> simp

theorem FunctionGrants.Tells.events {functions : FunctionGrants} {before : List WhitelistEvent}
    (h : functions.Tells before) (es : List WhitelistEvent) :
    (es.foldl WhitelistEvent.apply functions).Tells (before ++ es) := by
  induction es generalizing functions before with
  | nil => rwa [List.append_nil]
  | cons e es ih =>
    rw [List.foldl_cons, ← List.singleton_append, ← List.append_assoc]
    exact ih (h.event e)

/-- **The whitelist tells its history**, whatever edits it is made of. -/
theorem FunctionGrants.tells_edits (edits : List WhitelistEdit) :
    (edits.foldl WhitelistEdit.apply {}).Tells (edits.flatMap WhitelistEdit.events) := by
  have start : ({} : FunctionGrants).Tells [] := ⟨fun _ => rfl, fun _ => rfl, rfl⟩
  have fold : ∀ f, edits.foldl WhitelistEdit.apply f =
      (edits.flatMap WhitelistEdit.events).foldl WhitelistEvent.apply f := by
    induction edits with
    | nil => exact fun _ => rfl
    | cons edit edits ih =>
      intro f
      rw [List.foldl_cons, ih, edit.apply_eq, List.flatMap_cons, List.foldl_append]
  rw [fold]
  exact start.events _

theorem FunctionGrants.Tells.disjoint {functions : FunctionGrants} {events : List WhitelistEvent}
    (h : functions.Tells events) (n : String) :
    ¬ (functions.allowed.contains n = true ∧ functions.disallowed.contains n = true) := by
  rintro ⟨ha, hd⟩
  rw [h.allowed, decide_eq_true_eq] at ha
  rw [h.disallowed, ha, decide_eq_true_eq] at hd
  cases hd

/-! ### Calls -/

/-- `BoundSimpleFunction`. -/
structure BoundSimpleFunction where
  catalog : String
  schema : String
  name : String

/-- The catalog types of functions. -/
inductive CalledType where
  | scalar
  | aggregate

/-- A bound expression, as far as it is a call. -/
inductive BoundCall where
  | function (f : BoundSimpleFunction)
  | aggregate (f : BoundSimpleFunction)
  /-- A window function; only an aggregate has a function. -/
  | window (aggregate : Option BoundSimpleFunction)
  | other

/-- The function that is called, if it is one the whitelist is about. -/
def BoundCall.called : BoundCall → Option (BoundSimpleFunction × CalledType)
  | function f => some (f, .scalar)
  | aggregate f => some (f, .aggregate)
  | window f => f.map fun f => (f, .aggregate)
  | other => none

/-- `CrossingVerdict`. -/
inductive CrossingVerdict where
  | yes
  | no (reason : String)

/-- `DuckDBSource`, as far as its calls go. -/
structure DuckDBSource where
  bound : Bool
  bridgeId : String
  /-- `SourceHasFunction`. -/
  hasFunction : BoundSimpleFunction → CalledType → Bool

/-- `AcceptsCall` under the live whitelist; `pushable` are the `PushableBuiltins`. -/
def DuckDBSource.acceptsCall (source : DuckDBSource) (pushable : CISet)
    (functions : FunctionGrants) (call : BoundCall) : Except BridgeError CrossingVerdict := do
  throwIf (source.bound = false)
    ⟨.permission, "vcatbridge: not initialized; call vcatbridge_init(bridge_id, token)"⟩
  match call.called with
  | none => return .yes
  | some (f, type) =>
    let keeps := "bridge '" ++ source.bridgeId ++ "' keeps " ++ f.name ++ " on the target"
    if functions.disallowed.contains f.name then return .no keeps
    else if !functions.allowed.contains f.name &&
        !(functions.builtins && pushable.contains f.name) then return .no keeps
    else if source.hasFunction f type then return .yes
    else return .no ("the source has no function " ++ f.name)

/-- A call crosses as the history says. -/
theorem acceptsCall_iff {functions : FunctionGrants} {events : List WhitelistEvent}
    (h : functions.Tells events) {source : DuckDBSource} (hbound : source.bound = true)
    (pushable : CISet) {call : BoundCall} {f : BoundSimpleFunction} {type : CalledType}
    (hcall : call.called = some (f, type)) (hhas : source.hasFunction f type = true) :
    source.acceptsCall pushable functions call = .ok .yes ↔
      lastNamed f.name events = some true ∨
        lastNamed f.name events = none ∧ keptBuiltins events = true ∧
          pushable.contains f.name = true := by
  rw [DuckDBSource.acceptsCall, throwIf_neg (by rw [hbound]; nofun), hcall]
  show (if functions.disallowed.contains f.name = true then _ else _) = _ ↔ _
  rw [h.disallowed, h.allowed, h.builtins, hhas]
  cases lastNamed f.name events with
  | none => cases keptBuiltins events <;> cases pushable.contains f.name <;> simp [pure, Except.pure]
  | some allow => cases allow <;> simp [pure, Except.pure]

/-! ### The whitelist of a policy -/

/-- The session's part of `Ddl`, `Commit` and `Rollback` leaves the whitelist alone. -/
theorem Live.functions_of_next {bridgeId : String} {live live' : Live} {label : LiveLabel}
    (hl : ∀ l, label ≠ .owner l) (h : live.next bridgeId label = some live') :
    live'.store.book.state.functions = live.store.book.state.functions := by
  have shaped : ∀ (book : GrantBook) (session : DuckDBSession),
      (DuckDBSession.forgetShaping book session).state.functions = book.state.functions := by
    intro book session
    rw [DuckDBSession.forgetShaping]
    split <;> rfl
  cases label with
  | owner l => exact absurd rfl (hl l)
  | begin => cases h; rfl
  | session i op =>
    obtain ⟨session, book, session', hi, -, hstep, rfl⟩ := Live.next_session h
    cases hstep with
    | quiet => rfl
    | record ddl answer conn =>
      rw [DuckDBSession.recordDdl]
      split
      · rfl
      · split <;> rfl
      · split <;> rfl
    | commit succeeds =>
      rw [DuckDBSession.commit]
      split
      · rfl
      · cases succeeds <;> exact shaped _ _
    | rollback => exact shaped _ _
    | destroy => rfl

/-- The edit is what was committed. -/
def WhitelistEdit.Committed (edit : WhitelistEdit) (c : PolicyCommit) : Prop :=
  match edit, c with
  | list op names, .whitelist op' names' => op = op' ∧ names = names'
  | document functions, .configure state => ∃ view values config,
      resolvePolicy view values config = .ok state ∧
        functions = ⟨config.builtins, config.add, config.remove⟩
  | _, _ => False

/-- The commit changes the whitelist. -/
def PolicyCommit.editsFunctions : PolicyCommit → Bool
  | whitelist _ _ => true
  | configure _ => true
  | _ => false

/-- The commit is what some request resolves to. -/
def PolicyCommit.Requested (c : PolicyCommit) : Prop :=
  ∃ (request : PolicyRequest) (view : SourceView) (values : ContextValues),
    request.resolve view values = .ok c

/-- A document makes the whitelist that it states. -/
theorem functions_resolvePolicy {view : SourceView} {values : ContextValues}
    {config : PolicyConfig} {state : PolicyState}
    (h : resolvePolicy view values config = .ok state) (before : FunctionGrants) :
    state.functions =
      (WhitelistEdit.document ⟨config.builtins, config.add, config.remove⟩).apply before := by
  obtain ⟨creates, -, h⟩ := bind_eq_ok h
  obtain ⟨tables, -, h⟩ := bind_eq_ok h
  cases h
  rfl

/-- Only a document resolves to a whole policy. -/
theorem single_of_resolveEdit {view : SourceView} {values : ContextValues} {edit : PolicyEdit}
    {c : PolicyCommit} (h : resolveEdit view values edit = .ok c) : c.single = true := by
  cases edit with
  | verb target v value =>
    rw [resolveEdit] at h
    split_ifs at h
    · obtain ⟨entry, -, h⟩ := bind_eq_ok h
      obtain ⟨resolved, -, h⟩ := bind_eq_ok h
      cases h
      rfl
    · cases h
      rfl
  | create target granted =>
    rw [resolveEdit] at h
    split_ifs at h
    · obtain ⟨_, -, h⟩ := bind_eq_ok (x := throwUnlessSchemaExists view target) h
      cases h
      rfl
    · cases h
      rfl
  | primaryKey target key =>
    cases key with
    | none =>
      cases h
      rfl
    | some key =>
      obtain ⟨entry, -, h⟩ := bind_eq_ok h
      obtain ⟨resolved, -, h⟩ := bind_eq_ok h
      cases h
      rfl
  | foreignKeys target op parents =>
    rw [resolveEdit] at h
    split_ifs at h
    · obtain ⟨entry, -, h⟩ := bind_eq_ok (x := grantableEntry view target) h
      obtain ⟨_, -, h⟩ := bind_eq_ok (x := parents.forM (throwUnlessForeignKey view entry target)) h
      cases h
      rfl
    · cases h
      rfl
  | whitelist op names =>
    cases h
    rfl

/-- Commits that do not edit the whitelist leave it. -/
theorem PolicyCommit.functions_kept {c : PolicyCommit} (h : c.editsFunctions = false)
    (state : PolicyState) : (c.applyPending state).functions = state.functions := by
  have hs : c.single = true := by
    cases c with
    | configure s => cases h
    | _ => rfl
  rw [PolicyCommit.functions_applyPending hs]
  cases c with
  | whitelist op names => cases h
  | _ => rfl

/-- What was requested and committed replays as edits of the whitelist. -/
theorem exists_edits {commits : List PolicyCommit} (h : ∀ c ∈ commits, c.Requested)
    (state : PolicyState) : ∃ edits,
      List.Forall₂ WhitelistEdit.Committed edits (commits.filter PolicyCommit.editsFunctions) ∧
        (replay state commits).functions = edits.foldl WhitelistEdit.apply state.functions := by
  induction commits generalizing state with
  | nil => exact ⟨[], .nil, rfl⟩
  | cons c commits ih =>
    obtain ⟨hc, hcs⟩ := List.forall_mem_cons.1 h
    obtain ⟨edits, hedits, hreplay⟩ := ih hcs (c.applyPending state)
    have hstep : (replay state (c :: commits)).functions =
        edits.foldl WhitelistEdit.apply (c.applyPending state).functions := hreplay
    cases he : c.editsFunctions with
    | false =>
      rw [List.filter_cons_of_neg (by rw [he]; nofun)]
      exact ⟨edits, hedits, by rw [hstep, PolicyCommit.functions_kept he]⟩
    | true =>
      rw [List.filter_cons_of_pos he]
      cases c with
      | whitelist op names => exact ⟨.list op names :: edits, .cons ⟨rfl, rfl⟩ hedits, hstep⟩
      | configure newState =>
        obtain ⟨request, view, values, hresolve⟩ := hc
        cases request with
        | set edit => cases single_of_resolveEdit hresolve
        | configure config =>
          cases hs : resolvePolicy view values config with
          | error e =>
            rw [PolicyRequest.resolve, hs] at hresolve
            cases hresolve
          | ok resolved =>
            rw [PolicyRequest.resolve, hs] at hresolve
            cases hresolve
            refine ⟨.document ⟨config.builtins, config.add, config.remove⟩ :: edits,
              .cons ⟨view, values, config, hs, rfl⟩ hedits, ?_⟩
            rw [List.foldl_cons, ← functions_resolvePolicy hs]
            exact hstep
      | _ => cases he

namespace Registry

variable {s s' : Registry} {agent : Agent} {nonce : String} {r : Nat}

/-- A move that is not a session's has an agent that is none. -/
theorem Move.calm_or_session (hm : Move agent s s') :
    (∃ agent', Move agent' s s' ∧ ∀ r, s.Calm agent' r) ∨
      ∃ b bridge after label, s.bridges b = some bridge ∧ (∀ l, label ≠ LiveLabel.owner l) ∧
        Live.next bridge.bridgeId (s.liveOf bridge) label = some after ∧
        s' = s.setBridge b { bridge with book := after.store.book, sessions := after.sessions } := by
  have other : ∀ r, s.Calm .other r := fun r b i op h => by cases h
  by_cases hagent : ∃ b label, agent = .session b label
  · obtain ⟨b, label, rfl⟩ := hagent
    cases hm with
    | session b' bridge hb after label' ha hl h => exact .inr ⟨b', bridge, after, label', hb, hl, h, rfl⟩
    | tick elapsed => exact .inl ⟨.other, .tick elapsed, other⟩
    | close db => exact .inl ⟨.other, .close db, other⟩
    | purge => exact .inl ⟨.other, .purge, other⟩
    | touch id p hp ha => cases ha
    | register id p ha => cases ha
    | wrongToken id token p hp ha => cases ha
    | drop id => exact .inl ⟨.other, .drop id, other⟩
    | attach id p hp hx ha => cases ha
    | destroySource b' bridge hb ha => exact .inl ⟨.other, .destroySource b' bridge hb ha, other⟩
    | commitPending call commit p hcall hst hp hdb hf =>
      exact .inl ⟨.other, .commitPending call commit p hcall hst hp hdb hf, other⟩
    | commitLive call commit entry bridge book hcall hst hp hl hdb hok =>
      exact .inl ⟨.other, .commitLive call commit entry bridge book hcall hst hp hl hdb hok, other⟩
    | finalizePending id p hp => exact .inl ⟨.other, .finalizePending id p hp, other⟩
    | finalizeLive b' bridge hb => exact .inl ⟨.other, .finalizeLive b' bridge hb, other⟩
    | beginPolicy call target ha => cases ha
    | snapshotPolicy i call hi hst => exact .inl ⟨.other, .snapshotPolicy i call hi hst, other⟩
    | resolvePolicy i call values view commit hi hst hok =>
      exact .inl ⟨.other, .resolvePolicy i call values view commit hi hst hok trivial, other⟩
    | beginContext call => exact .inl ⟨.other, .beginContext call, other⟩
    | advanceContext i call => exact .inl ⟨.other, .advanceContext i call, other⟩
    | endCall i => exact .inl ⟨.other, .endCall i, other⟩
    | writeContext r name value => exact .inl ⟨.other, .writeContext r name value, other⟩
    | finalizeContext r => exact .inl ⟨.other, .finalizeContext r, other⟩
    | holds b' bridge hb n => exact .inl ⟨.other, .holds b' bridge hb n, other⟩
  · exact .inl ⟨agent, hm, fun r b i op ha => absurd ⟨b, _, ha⟩ hagent⟩

/-- **Every move keeps the whitelist of a policy, or commits an edit to it.** -/
theorem HasPolicy.functions_move (hs : s.Registered) (hm : Move agent s s') {state' : PolicyState}
    {f' : Bool} (h : s'.HasPolicy r state' f') (hlt : r < s.registrations) :
    ∃ state f events, s.HasPolicy r state f ∧ s'.history = events ++ s.history ∧
      state'.functions = (replay state (commitsOf r events)).functions := by
  obtain ⟨agent', hm', hcalm⟩ | ⟨b, bridge, after, label, hb, hl, hstep, rfl⟩ := hm.calm_or_session
  · obtain ⟨state, f, hbecomes⟩ := h.move hs hm' hlt
    obtain ⟨events, hh, hsame⟩ := hbecomes.replayed (hcalm r)
    exact ⟨state, f, events, hbecomes.before, hh, hsame.functions⟩
  · rcases h.of_setBridge hs hb rfl with ⟨hr, rfl, rfl⟩ | ⟨-, h⟩
    · exact ⟨_, _, [], .live hb hr, rfl, Live.functions_of_next hl hstep⟩
    · exact ⟨_, _, [], h, rfl, rfl⟩

/-- The whitelist of a policy is that of the edits committed to it. -/
structure WhitelistReplayed (r : Nat) (s : Registry) : Prop where
  policy : ∀ state f, s.HasPolicy r state f →
    state.functions = (replay {} (commitsOf r s.history)).functions
  unregistered : s.registrations ≤ r → commitsOf r s.history = []

/-- Edits of the same whitelist make the same one. -/
theorem functions_replay_congr {state state' : PolicyState} (h : state.functions = state'.functions)
    (commits : List PolicyCommit) :
    (replay state commits).functions = (replay state' commits).functions := by
  induction commits generalizing state state' with
  | nil => exact h
  | cons c commits ih =>
    refine ih ?_
    cases he : c.editsFunctions with
    | false => rw [PolicyCommit.functions_kept he, PolicyCommit.functions_kept he, h]
    | true =>
      cases c with
      | whitelist op names =>
        show applyFunctionList state.functions op names = applyFunctionList state'.functions op names
        rw [h]
      | configure newState => rfl
      | _ => cases he

theorem WhitelistReplayed.move (h : s.WhitelistReplayed r) (hs : s.Registered)
    (hm : Move agent s s') : s'.WhitelistReplayed r := by
  have hn := (Continues.of_move hm).registrations
  by_cases hr : r < s.registrations
  · refine ⟨fun state' f' hp' => ?_, fun hle => absurd (hr.trans_le hn) hle.not_gt⟩
    obtain ⟨state, f, events, hbefore, hh, hfun⟩ := hp'.functions_move hs hm hr
    rw [hfun, hh, commitsOf_append, replay, replay, List.foldl_append]
    exact functions_replay_congr (h.policy state f hbefore) _
  · have hcommits := commitsOf_unregistered (h.unregistered (not_lt.1 hr)) hs hm hr
    refine ⟨fun state f hp => ?_, fun _ => hcommits⟩
    rw [hcommits, hp.new hs hm (not_lt.1 hr)]
    rfl

theorem WhitelistReplayed.moves (h : s.WhitelistReplayed r) (hs : s.Registered)
    (hm : Moves agent s s') : s'.WhitelistReplayed r ∧ s'.Registered := by
  induction hm with
  | refl => exact ⟨h, hs⟩
  | tail _ hm ih => exact ⟨ih.1.move ih.2 hm, ih.2.move hm⟩

/-- The whitelist of a policy in a reachable state is that of the edits committed to it. -/
theorem whitelist_replays (h : (registryMachine nonce).ReachableBy Machine.Free {} s)
    {state : PolicyState} {f : Bool} (hp : s.HasPolicy r state f) : ∃ edits,
      List.Forall₂ WhitelistEdit.Committed edits
        ((commitsOf r s.history).filter PolicyCommit.editsFunctions) ∧
      state.functions = edits.foldl WhitelistEdit.apply {} := by
  have hreplayed : s.WhitelistReplayed r ∧ s.Registered := by
    refine h.invariant (I := fun s => s.WhitelistReplayed r ∧ s.Registered)
      ⟨⟨fun state f hp => ?_, fun _ => rfl⟩, registered_empty⟩
      fun s l t hi _ hn => hi.1.moves hi.2 (next_moves hn)
    cases hp with
    | pending hp => cases hp
    | live hb => cases hb
  have hedits : s.EditsHave PolicyCommit.Requested :=
    editsHave_of_reachable (fun hok => ⟨_, _, _, hok⟩) h
  have hcommits : ∀ c ∈ commitsOf r s.history, c.Requested := fun c hc => by
    obtain ⟨l, hl⟩ := mem_commitsOf hc
    exact hedits.commits r l c hl
  obtain ⟨edits, hforall, hreplay⟩ := exists_edits hcommits {}
  exact ⟨edits, hforall, (hreplayed.1.policy state f hp).trans hreplay⟩

end Registry

/-- **A call crosses exactly if its name was allowed last**, or was not named since the list was
replaced and is a builtin that was kept; no name is both allowed and disallowed.  This holds of
every sequence of edits, and the whitelist of every policy is made by such a sequence: the edits
that were committed to it. -/
theorem whitelist_semantics :
    (∀ edits : List WhitelistEdit,
      (∀ n, ¬ ((edits.foldl WhitelistEdit.apply {}).allowed.contains n = true ∧
        (edits.foldl WhitelistEdit.apply {}).disallowed.contains n = true)) ∧
      ∀ (source : DuckDBSource) (pushable : CISet) (call : BoundCall) (f : BoundSimpleFunction)
        (type : CalledType), source.bound = true → call.called = some (f, type) →
        source.hasFunction f type = true →
        (source.acceptsCall pushable (edits.foldl WhitelistEdit.apply {}) call = .ok .yes ↔
          lastNamed f.name (edits.flatMap WhitelistEdit.events) = some true ∨
            lastNamed f.name (edits.flatMap WhitelistEdit.events) = none ∧
              keptBuiltins (edits.flatMap WhitelistEdit.events) = true ∧
              pushable.contains f.name = true)) ∧
    ∀ (nonce : String) (s : Registry) (r : Nat) (state : PolicyState) (finalized : Bool),
      (registryMachine nonce).ReachableBy Machine.Free {} s →
      s.HasPolicy r state finalized → ∃ edits,
        List.Forall₂ WhitelistEdit.Committed edits
          ((commitsOf r s.history).filter PolicyCommit.editsFunctions) ∧
        state.functions = edits.foldl WhitelistEdit.apply {} := by
  refine ⟨fun edits => ?_, fun nonce s r state finalized h hp => Registry.whitelist_replays h hp⟩
  have htells := FunctionGrants.tells_edits edits
  exact ⟨htells.disjoint, fun source pushable call f type hbound hcall hhas =>
    acceptsCall_iff htells hbound pushable hcall hhas⟩

namespace Sample

/-- The owner allows a function, and then replaces the whole list. -/
def replacing : List RegistryLabel :=
  [.register 0 "b" (.ok ⟨0, "first"⟩) (some "token") ""] ++
    Registry.Sample.setting (.whitelist .add ["upper"]) ++
    Registry.Sample.setting (.whitelist .set ["lower"])

/-- The same edits. -/
def replacingEdits : List WhitelistEdit := [.list .add ["upper"], .list .set ["lower"]]

/-- A bridge that is bound to a source with every function. -/
def boundSource : DuckDBSource := ⟨true, "b", fun _ _ => true⟩

/-- A call of a function. -/
def callOf (name : String) : BoundCall := .function ⟨"system", "main", name⟩

end Sample

/-- What was allowed before the list was replaced does not cross. -/
theorem whitelist_semantics_replaced :
    Sample.boundSource.acceptsCall ∅ (Sample.replacingEdits.foldl WhitelistEdit.apply {})
        (Sample.callOf "lower") = .ok .yes ∧
      Sample.boundSource.acceptsCall ∅ (Sample.replacingEdits.foldl WhitelistEdit.apply {})
        (Sample.callOf "upper") ≠ .ok .yes ∧
      ∃ (state : PolicyState) (finalized : Bool) (edits : List WhitelistEdit),
        (Registry.Sample.after Sample.replacing).HasPolicy 0 state finalized ∧
          state.functions = edits.foldl WhitelistEdit.apply {} ∧ edits.length = 2 := by
  have crosses := (whitelist_semantics.1 Sample.replacingEdits).2 Sample.boundSource ∅
  obtain ⟨p, hp, hr⟩ : ∃ p, (Registry.Sample.after Sample.replacing).pending "b" = some p ∧
    p.registration = 0 := ⟨_, rfl, rfl⟩
  obtain ⟨edits, hedits, hfunctions⟩ := whitelist_semantics.2 "n" _ 0 _ _
    ⟨Sample.replacing, Machine.run_of_exec rfl⟩ (.pending hp hr)
  refine ⟨(crosses (Sample.callOf "lower") _ _ rfl rfl rfl).2 (.inl (by decide)), fun h => ?_,
    _, _, edits, .pending hp hr, hfunctions, hedits.length_eq.trans rfl⟩
  exact absurd ((crosses (Sample.callOf "upper") _ _ rfl rfl rfl).1 h) (by decide)

end VirtualCatalog
