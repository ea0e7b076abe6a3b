import VirtualCatalog.Bridge.Edits

/-!
# Attempts to redeem

A target comes with an id and a token, as often as it likes.  All its refusals come before the first
piece of the pending entry is moved into a book; they only count wrong tokens and drop what is
expired.

* `Registry.redeemBridge_pending` : an attempt on an entry in time, read as one equation.
* `Registry.Aside` : a label that is none of the owner's on a registration, and does not redeem it.
* `refused_costs_nothing` : what is left after refused attempts, and what a redeem hands over.
* `accepted_redeems_iff` : registration takes every token, but only those redeem that have no colon
  or the nonce before the first one.
-/

namespace VirtualCatalog

namespace Registry

variable {s s' t : Registry} {agent : Agent} {nonce id token : String} {p : PendingSource}
  {settings : Except BridgeError Unit}

/-! ### One attempt -/

theorem not_closed (hx : s.expired p = false) : p.sourceDb ∉ s.closed := by
  rw [expired, Bool.or_eq_false_iff] at hx
  exact of_decide_eq_false hx.2

/-- An attempt on an entry in time, with a token of this copy of the extension. -/
theorem redeemBridge_pending (hn : (noncePart token).any (· ≠ nonce) = false)
    (hp : s.pending id = some p) (hx : s.expired p = false) :
    s.redeemBridge nonce id token settings =
      if p.token ≠ token then
        (.error ⟨.permission, "vcatbridge: invalid setup token for bridge '" ++ id ++ "'"⟩,
          s.purge.wrongToken id p)
      else if s.isLiveBridge id then
        (.error ⟨.permission, "vcatbridge: bridge '" ++ id ++ "' is already attached"⟩, s.purge)
      else
        match validateGrantSet p.state.tables p.state.createSchemas id true, settings with
        | .error e, _ => (.error e, s.purge)
        | .ok _, .error e => (.error e, s.purge)
        | .ok _, .ok _ => (.ok s.redeemed, s.purge.attach id p) := by
  have hlive : s.purge.isLiveBridge id = s.isLiveBridge id := rfl
  simp only [redeemBridge, hn, pending_purge hp hx, not_closed hx, hlive, Bool.false_eq_true,
    if_false]
  by_cases ht : p.token = token
  · have heq : constantTimeEquals p.token token = true := constantTimeEquals_iff.2 ht
    rw [heq, if_neg Bool.noConfusion, if_neg (not_not.2 ht)]
    split
    · rfl
    cases validateGrantSet p.state.tables p.state.createSchemas id true with
    | error e => rfl
    | ok u => cases settings <;> rfl
  · have hne : constantTimeEquals p.token token = false :=
      Bool.eq_false_iff.2 fun h => ht (constantTimeEquals_iff.1 h)
    rw [hne, if_pos rfl, if_pos ht]

/-- What an attempt makes of the registry: it is refused with nothing changed but a purge, or it
counts, or it succeeds. -/
theorem redeemBridge_cases (s : Registry) (nonce id token : String)
    (settings : Except BridgeError Unit) :
    (∃ e, (s.redeemBridge nonce id token settings).1 = .error e ∧
      ((s.redeemBridge nonce id token settings).2 = s ∨
        (s.redeemBridge nonce id token settings).2 = s.purge)) ∨
    (∃ e p, (s.redeemBridge nonce id token settings).1 = .error e ∧ s.pending id = some p ∧
      s.expired p = false ∧ token ≠ p.token ∧
        (s.redeemBridge nonce id token settings).2 = s.purge.wrongToken id p) ∨
    ∃ p, s.redeemBridge nonce id token settings = (.ok s.redeemed, s.purge.attach id p) ∧
      s.pending id = some p ∧ s.expired p = false ∧ token = p.token := by
  by_cases hn : (noncePart token).any (· ≠ nonce) = true
  · obtain ⟨e, heq⟩ : ∃ e, s.redeemBridge nonce id token settings = (.error e, s) := by
      rw [redeemBridge, if_pos hn]
      exact ⟨_, rfl⟩
    exact .inl ⟨e, by rw [heq], .inl (by rw [heq])⟩
  rw [Bool.not_eq_true] at hn
  cases hp : s.purge.pending id with
  | none =>
    refine .inl ⟨noSource id, ?_, .inr ?_⟩ <;>
      simp only [redeemBridge, hn, hp, Bool.false_eq_true, if_false]
  | some p =>
    obtain ⟨hp, hx⟩ := expired_of_purge hp
    have heq := @redeemBridge_pending s nonce id token p settings hn hp hx
    by_cases ht : p.token = token
    · rw [if_neg (not_not.2 ht)] at heq
      split at heq
      · exact .inl ⟨_, by rw [heq], .inr (by rw [heq])⟩
      split at heq
      · exact .inl ⟨_, by rw [heq], .inr (by rw [heq])⟩
      · exact .inl ⟨_, by rw [heq], .inr (by rw [heq])⟩
      · exact .inr (.inr ⟨p, heq, hp, hx, ht.symm⟩)
    · rw [if_pos ht] at heq
      exact .inr (.inl ⟨_, p, by rw [heq], hp, hx, Ne.symm ht, by rw [heq]⟩)

/-! ### One step that is none of the owner's -/

/-- A label that is no call of the owner about the registration `r` of `id`, and no attempt that gets
it. -/
def Aside (nonce id : String) (r : Nat) (s : Registry) : RegistryLabel → Prop
  | .redeem id' token settings =>
    id' = id → ∃ e, (s.redeemBridge nonce id' token settings).1 = .error e
  | .setPolicy _ id' _ | .setContext _ id' _ _ | .finalizePolicy _ id' | .finalizeContext _ id' =>
    id' ≠ id
  | .finish i => (∀ call, s.calls[i]? = some (.policy call) → call.bridgeId ≠ id) ∧
    ∀ call, s.calls[i]? = some (.context call) → call.registration ≠ r
  | _ => True

/-- Time passes, instances close and events are noted. -/
structure Later (s s' : Registry) : Prop where
  now : s.now ≤ s'.now
  closed : s.closed ⊆ s'.closed
  history : ∃ events, s'.history = events ++ s.history

namespace Later

theorem refl (s : Registry) : s.Later s := ⟨le_rfl, List.Subset.refl _, [], rfl⟩

theorem trans {s₁ : Registry} (h : s.Later s₁) (h' : s₁.Later s') : s.Later s' := by
  obtain ⟨events, he⟩ := h.history
  obtain ⟨events', he'⟩ := h'.history
  exact ⟨h.now.trans h'.now, List.Subset.trans h.closed h'.closed, events' ++ events, by
    rw [he', he, List.append_assoc]⟩

theorem of_move (hm : Move agent s s') : s.Later s' := by
  have hh : ∃ events, s'.history = events ++ s.history := by
    rcases hm.history with hh | ⟨e, hh, -⟩
    · exact ⟨[], hh⟩
    · exact ⟨[e], hh⟩
  cases hm with
  | tick elapsed => exact ⟨Nat.le_add_right .., List.Subset.refl _, hh⟩
  | close db => exact ⟨le_rfl, List.subset_cons_self .., hh⟩
  | wrongToken id token p =>
    refine ⟨?_, ?_, hh⟩ <;> rw [wrongToken] <;> split
    · exact le_rfl
    · exact le_rfl
    · exact List.Subset.refl _
    · exact List.Subset.refl _
  | destroySource b bridge =>
    obtain ⟨live, heq⟩ := s.destroySource_eq b bridge
    rw [heq] at hh ⊢
    exact ⟨le_rfl, List.Subset.refl _, hh⟩
  | _ => exact ⟨le_rfl, List.Subset.refl _, hh⟩

theorem of_moves (hm : Moves agent s s') : s.Later s' := by
  induction hm with
  | refl => exact .refl s
  | tail _ hm ih => exact ih.trans (.of_move hm)

/-- An entry that is still in time was so before. -/
theorem expired (h : s.Later s') (hx : s'.expired p = false) : s.expired p = false := by
  rw [Registry.expired, Bool.or_eq_false_iff, decide_eq_false_iff_not, decide_eq_false_iff_not] at hx ⊢
  refine ⟨fun hlt => hx.1 (hlt.trans_le ?_), fun hc => hx.2 (h.closed hc)⟩
  exact Nat.div_le_div_right (Nat.sub_le_sub_right h.now _)

theorem wrongTokens (h : s.Later s') (r : Nat) : s.wrongTokens r ≤ s'.wrongTokens r := by
  obtain ⟨events, he⟩ := h.history
  rw [Registry.wrongTokens, Registry.wrongTokens, occurrences, occurrences, he, List.countP_append]
  exact Nat.le_add_left ..

end Later

/-- A lookup of another id leaves an entry in time alone. -/
theorem lookupGrantTarget_pending {id' : String} {db : Nat} (hid : id' ≠ id)
    (hp : s.pending id = some p) (hx : s.expired p = false) :
    (s.lookupGrantTarget id' db).2.pending id = some p := by
  have hpurge := pending_purge hp hx
  rw [lookupGrantTarget]
  split
  · split
    · exact hpurge
    · rw [pending_setPending, if_neg (Ne.symm hid)]
      exact hpurge
  · exact hpurge

theorem lookupGrantTarget_contexts {id' : String} {db : Nat} :
    (s.lookupGrantTarget id' db).2.contexts = s.contexts := by
  rw [lookupGrantTarget]
  split
  · split <;> rfl
  · rfl

theorem lookUpOpenBridge_eq (s : Registry) (db : Nat) (id : String) (request : PolicyRequest) : ∃ calls,
    (s.lookUpOpenBridge db id request).2 = (s.lookupGrantTarget id db).2.withCalls calls := by
  have hfound : (s.lookupOpenGrants id db).2 = (s.lookupGrantTarget id db).2 := rfl
  rw [← hfound, lookUpOpenBridge]
  split
  next e s₁ h => exact ⟨s₁.calls, by rw [h]; rfl⟩
  next target s₁ h => exact ⟨_, by rw [h]⟩

theorem lookUpContext_cases (s : Registry) (db : Nat) (id n : String) (v : Value) :
    (s.lookUpContext db id n v).2 = s ∨ ∃ calls,
      (s.lookUpContext db id n v).2 = (s.lookupGrantTarget id db).2.withCalls calls := by
  rw [lookUpContext.eq_def]
  split
  · exact .inl rfl
  split
  · exact .inl rfl
  rw [if_neg Bool.false_ne_true]
  split
  next e s₁ h => exact .inr ⟨s₁.calls, by rw [h]; rfl⟩
  next target s₁ h => exact .inr ⟨_, by rw [h]⟩

theorem commitCall_pending {call : PolicyCall} {commit : PolicyCommit} (hid : call.bridgeId ≠ id)
    (hp : s.pending id = some p) (hx : s.expired p = false) :
    (s.commitCall call commit).2.pending id = some p := by
  have hfound : (s.lookupOpenGrants call.bridgeId call.sourceDb).2.pending id = some p :=
    lookupGrantTarget_pending hid hp hx
  rw [commitCall]
  split
  next e s₁ h =>
    rw [h] at hfound
    exact hfound
  next target s₁ h =>
    rw [h] at hfound
    split
    · change (s₁.setPending call.bridgeId _).pending id = some p
      rw [pending_setPending, if_neg (Ne.symm hid)]
      exact hfound
    · split
      · exact hfound
      · exact hfound

theorem commitCall_contexts {call : PolicyCall} {commit : PolicyCommit} :
    (s.commitCall call commit).2.contexts = s.contexts := by
  have hfound : (s.lookupOpenGrants call.bridgeId call.sourceDb).2.contexts = s.contexts :=
    lookupGrantTarget_contexts
  rw [commitCall]
  split
  next e s₁ h =>
    rw [h] at hfound
    exact hfound
  next target s₁ h =>
    rw [h] at hfound
    split
    · exact hfound
    · split
      · exact hfound
      · exact hfound

theorem finalizePolicy_pending {id' : String} {db : Nat} (hid : id' ≠ id)
    (hp : s.pending id = some p) (hx : s.expired p = false) :
    (s.finalizePolicy db id').2.pending id = some p := by
  have hfound : (s.lookupGrantTarget id' db).2.pending id = some p :=
    lookupGrantTarget_pending hid hp hx
  rw [finalizePolicy]
  split
  next e s₁ h =>
    rw [h] at hfound
    exact hfound
  next target s₁ h =>
    rw [h] at hfound
    split
    · exact hfound
    split
    · change (s₁.setPending id' _).pending id = some p
      rw [pending_setPending, if_neg (Ne.symm hid)]
      exact hfound
    · exact hfound

theorem finalizePolicy_contexts {id' : String} {db : Nat} :
    (s.finalizePolicy db id').2.contexts = s.contexts := by
  have hfound : (s.lookupGrantTarget id' db).2.contexts = s.contexts := lookupGrantTarget_contexts
  rw [finalizePolicy]
  split
  next e s₁ h =>
    rw [h] at hfound
    exact hfound
  next target s₁ h =>
    rw [h] at hfound
    split
    · exact hfound
    split
    · exact hfound
    · exact hfound

/-- An attempt at another id, or a refused one, leaves an entry in time alone but for the count. -/
theorem redeemBridge_keeps {id' : String} (hp : s.pending id = some p) (hx : s.expired p = false)
    (href : id' = id → ∃ e, (s.redeemBridge nonce id' token settings).1 = .error e)
    (hmax : (s.redeemBridge nonce id' token settings).2.wrongTokens p.registration <
      maxTokenFailures) (hs : s.Registered) :
    (s.redeemBridge nonce id' token settings).2.pending id = some { p with
      tokenFailures := (s.redeemBridge nonce id' token settings).2.wrongTokens p.registration } := by
  have hpurge := pending_purge hp hx
  obtain ⟨hcount, -⟩ := hs.failures id p hp
  rcases redeemBridge_cases s nonce id' token settings with ⟨e, -, heq⟩ | ⟨e, q, -, hq, hqx, -, heq⟩ | ⟨q, heq, hq, -⟩
  · have hw : (s.redeemBridge nonce id' token settings).2.wrongTokens p.registration =
        p.tokenFailures := by
      rcases heq with heq | heq <;> rw [heq] <;> exact hcount
    rw [hw]
    rcases heq with heq | heq <;> rw [heq]
    · exact hp
    · exact hpurge
  · have hw : s.purge.wrongTokens p.registration = p.tokenFailures := hcount
    by_cases hid : id' = id
    · subst hid
      cases hp.symm.trans hq
      rw [heq, wrongTokens_wrongToken, hw, if_pos rfl] at hmax ⊢
      rw [pending_wrongToken, if_pos rfl, afterWrongToken, if_neg (by omega)]
    · have hr : ¬ q.registration = p.registration :=
        fun hr => hid (hs.distinct id' id q p hq hp hr)
      rw [heq, wrongTokens_wrongToken, hw, if_neg hr, pending_wrongToken, if_neg (Ne.symm hid)]
      exact hpurge
  · have hid : id' ≠ id := by
      rintro rfl
      obtain ⟨e, he⟩ := href rfl
      rw [heq] at he
      cases he
    have hw : (s.purge.attach id' q).wrongTokens p.registration = p.tokenFailures :=
      (wrongTokens_note_redeemed (s.purge.dropPending id') q.registration p.registration).trans hcount
    rw [heq, hw]
    exact ((s.purge.pending_dropPending id' id).trans (if_neg (Ne.symm hid))).trans hpurge

theorem redeemBridge_contexts :
    (s.redeemBridge nonce id token settings).2.contexts = s.contexts := by
  rcases redeemBridge_cases s nonce id token settings with ⟨e, -, heq | heq⟩ | ⟨e, q, -, -, -, -, heq⟩ | ⟨q, heq, -⟩
  · rw [heq]
  · rw [heq]
    rfl
  · rw [heq, wrongToken_eq]
    rfl
  · rw [heq]
    rfl

/-- A step that is none of the owner's changes nothing but the count of an entry in time. -/
theorem Registered.aside (hs : s.Registered) (hp : s.pending id = some p) {l : RegistryLabel}
    (hl : Aside nonce id p.registration s l) (hn : s.next nonce l = some s')
    (hx' : s'.expired p = false) (hmax : s'.wrongTokens p.registration < maxTokenFailures) :
    s'.pending id = some { p with tokenFailures := s'.wrongTokens p.registration } := by
  have hlater := Later.of_moves (next_moves hn)
  have hx : s.expired p = false := hlater.expired hx'
  have hpurge := pending_purge hp hx
  obtain ⟨hcount, -⟩ := hs.failures id p hp
  -- no label but an attempt counts
  have same : s'.pending id = some p → s'.pending id =
      some { p with tokenFailures := s'.wrongTokens p.registration } := by
    intro hp'
    obtain ⟨hc, -⟩ := (hs.moves (next_moves hn)).failures id p hp'
    rw [hc]
    exact hp'
  unfold next at hn
  cases l with
  | redeem id' token settings =>
    cases hn
    exact redeemBridge_keeps hp hx hl hmax hs
  | tick => cases hn; exact same hp
  | close => cases hn; exact same hp
  | register db id' pin chosen uuid =>
    dsimp only at hn
    split_ifs at hn
    cases hn
    refine same ?_
    unfold registerSource
    split
    · exact hp
    split
    · exact hp
    split
    · exact hp
    dsimp only
    split
    · exact hpurge
    next hfree =>
      have hne : id ≠ id' := by
        rintro rfl
        rw [hpurge] at hfree
        exact hfree rfl
      exact (pending_addPending ..).trans ((if_neg hne).trans hpurge)
  | destroySource b =>
    obtain ⟨bridge, hb, hn⟩ := Option.bind_eq_some_iff.1 hn
    split_ifs at hn
    cases hn
    obtain ⟨live, heq⟩ := s.destroySource_eq b bridge
    refine same ?_
    rw [heq]
    exact hp
  | setPolicy db id' request =>
    dsimp only at hn
    split_ifs at hn
    cases hn
    refine same ?_
    obtain ⟨calls, heq⟩ := lookUpOpenBridge_eq s db id' request
    rw [heq]
    exact lookupGrantTarget_pending hl hp hx
  | setContext db id' name value =>
    dsimp only at hn
    split_ifs at hn
    cases hn
    refine same ?_
    obtain heq | ⟨calls, heq⟩ := lookUpContext_cases s db id' name value
    · rw [heq]
      exact hp
    · rw [heq]
      exact lookupGrantTarget_pending hl hp hx
  | snapshot i =>
    obtain ⟨call, hi, hn⟩ := Option.bind_eq_some_iff.1 hn
    refine same ?_
    cases call <;> unfold snapshot at hn <;> dsimp only at hn <;> split at hn <;> cases hn <;> exact hp
  | resolve i view =>
    obtain ⟨call, hi, hn⟩ := Option.bind_eq_some_iff.1 hn
    refine same ?_
    unfold resolve at hn
    cases call <;> dsimp only at hn <;> split at hn <;> try cases hn
    all_goals split at hn <;> cases hn <;> exact hp
  | finish i =>
    obtain ⟨call, hi, hn⟩ := Option.bind_eq_some_iff.1 hn
    refine same ?_
    unfold finish at hn
    cases call with
    | policy call =>
      dsimp only at hn
      split at hn <;> cases hn
      exact commitCall_pending (hl.1 call hi) hp hx
    | context call =>
      dsimp only at hn
      split at hn <;> cases hn
      rw [writeContext]
      split <;> exact hp
  | finalizePolicy db id' =>
    dsimp only at hn
    split_ifs at hn
    cases hn
    exact same (finalizePolicy_pending hl hp hx)
  | finalizeContext db id' =>
    dsimp only at hn
    split_ifs at hn
    cases hn
    refine same ?_
    have hfound : (s.lookupGrantTarget id' db).2.pending id = some p :=
      lookupGrantTarget_pending hl hp hx
    rw [finalizeContext]
    split
    next e s₁ h => rw [h] at hfound; exact hfound
    next target s₁ h =>
      rw [h] at hfound
      dsimp only
      split <;> exact hfound
  | beginSession b =>
    obtain ⟨bridge, hb, hn⟩ := Option.bind_eq_some_iff.1 hn
    split_ifs at hn
    obtain ⟨after, -, rfl⟩ := Option.map_eq_some_iff.1 hn
    exact same hp
  | session b i op =>
    obtain ⟨bridge, hb, hn⟩ := Option.bind_eq_some_iff.1 hn
    obtain ⟨after, -, rfl⟩ := Option.map_eq_some_iff.1 hn
    exact same hp
  | hold b =>
    obtain ⟨bridge, hb, hn⟩ := Option.bind_eq_some_iff.1 hn
    split_ifs at hn
    cases hn
    exact same hp
  | release b =>
    obtain ⟨bridge, hb, rfl⟩ := Option.map_eq_some_iff.1 hn
    exact same hp

/-- What a lookup of another id finds is another registration. -/
theorem Registered.target_ne (hs : s.Registered) (hp : s.pending id = some p) {id' : String}
    {db : Nat} (hid : id' ≠ id) (hm : Moves (.owner db id') s s') {target : GrantTarget}
    (ht : s'.Target id' db target) : target.registration ≠ p.registration := by
  cases ht with
  | pending q hq hdb =>
    intro heq
    rcases (Continues.of_moves hm).pending id' q hq with hnew | ⟨q₀, hq₀, hr, -⟩
    · exact (hs.numbered id p hp).not_ge (heq ▸ hnew)
    · exact hid (hs.distinct id' id q₀ p hq₀ hp (hr.symm.trans heq))
  | live entry bridge hq hl hdb =>
    intro heq
    obtain ⟨-, hb, -⟩ := bridges_of_liveBridge hl
    have hone := ((hs.moves hm).books _ bridge hb).2
    have heq : bridge.registration = p.registration := heq
    rw [redemptions_of_moves hm (fun _ _ h => by cases h), heq, hs.unredeemed id p hp] at hone
    cases hone

/-- A step that is none of the owner's leaves the context of a pending registration alone. -/
theorem Registered.aside_contexts (hs : s.Registered) (hp : s.pending id = some p)
    {l : RegistryLabel} (hl : Aside nonce id p.registration s l) (hn : s.next nonce l = some s') :
    s'.contexts p.registration = s.contexts p.registration := by
  unfold next at hn
  cases l with
  | redeem id' token settings => cases hn; rw [redeemBridge_contexts]
  | tick => cases hn; rfl
  | close => cases hn; rfl
  | register db id' pin chosen uuid =>
    dsimp only at hn
    split_ifs at hn
    cases hn
    unfold registerSource
    split
    · rfl
    split
    · rfl
    split
    · rfl
    dsimp only
    split
    · rfl
    -- the context of the new registration is set, whose number is none in use
    · exact Function.update_of_ne (hs.numbered id p hp).ne _ _
  | destroySource b =>
    obtain ⟨bridge, hb, hn⟩ := Option.bind_eq_some_iff.1 hn
    split_ifs at hn
    cases hn
    obtain ⟨live, heq⟩ := s.destroySource_eq b bridge
    rw [heq]
    rfl
  | setPolicy db id' request =>
    dsimp only at hn
    split_ifs at hn
    cases hn
    obtain ⟨calls, heq⟩ := lookUpOpenBridge_eq s db id' request
    rw [heq]
    exact congrFun lookupGrantTarget_contexts _
  | setContext db id' name value =>
    dsimp only at hn
    split_ifs at hn
    cases hn
    obtain heq | ⟨calls, heq⟩ := lookUpContext_cases s db id' name value
    · rw [heq]
    · rw [heq]
      exact congrFun lookupGrantTarget_contexts _
  | snapshot i =>
    obtain ⟨call, hi, hn⟩ := Option.bind_eq_some_iff.1 hn
    cases call <;> unfold snapshot at hn <;> dsimp only at hn <;> split at hn <;> cases hn <;> rfl
  | resolve i view =>
    obtain ⟨call, hi, hn⟩ := Option.bind_eq_some_iff.1 hn
    unfold resolve at hn
    cases call <;> dsimp only at hn <;> split at hn <;> try cases hn
    all_goals split at hn <;> cases hn <;> rfl
  | finish i =>
    obtain ⟨call, hi, hn⟩ := Option.bind_eq_some_iff.1 hn
    unfold finish at hn
    cases call with
    | policy call =>
      dsimp only at hn
      split at hn <;> cases hn
      exact congrFun commitCall_contexts _
    | context call =>
      dsimp only at hn
      split at hn <;> cases hn
      rw [writeContext]
      split
      · rfl
      -- a write of another registration
      · exact Function.update_of_ne (Ne.symm (hl.2 call hi)) _ _
  | finalizePolicy db id' =>
    dsimp only at hn
    split_ifs at hn
    cases hn
    exact congrFun finalizePolicy_contexts _
  | finalizeContext db id' =>
    dsimp only at hn
    split_ifs at hn
    cases hn
    have hfound : (s.lookupGrantTarget id' db).2.contexts = s.contexts := lookupGrantTarget_contexts
    rw [finalizeContext]
    split
    next e s₁ h => rw [h] at hfound; exact congrFun hfound _
    next target s₁ h =>
      rw [h] at hfound
      dsimp only
      split
      · exact congrFun hfound _
      · obtain ⟨hm, -, ht⟩ := lookupGrantTarget_moves h
        -- the flag is set on the registration that the lookup found, another one
        refine (Function.update_of_ne (Ne.symm ?_) _ _).trans (congrFun hfound _)
        exact hs.target_ne hp hl hm (ht target rfl)
  | beginSession b =>
    obtain ⟨bridge, hb, hn⟩ := Option.bind_eq_some_iff.1 hn
    split_ifs at hn
    obtain ⟨after, -, rfl⟩ := Option.map_eq_some_iff.1 hn
    rfl
  | session b i op =>
    obtain ⟨bridge, hb, hn⟩ := Option.bind_eq_some_iff.1 hn
    obtain ⟨after, -, rfl⟩ := Option.map_eq_some_iff.1 hn
    rfl
  | hold b =>
    obtain ⟨bridge, hb, hn⟩ := Option.bind_eq_some_iff.1 hn
    split_ifs at hn
    cases hn
    rfl
  | release b =>
    obtain ⟨bridge, hb, rfl⟩ := Option.map_eq_some_iff.1 hn
    rfl

/-! ### Whole runs -/

theorem Later.of_run {C : Registry → RegistryLabel → Prop} {ls : List RegistryLabel}
    (h : (registryMachine nonce).Run C s ls t) : s.Later t :=
  h.relate .refl (fun _ _ _ => .trans) fun _ _ _ _ hn => .of_moves (next_moves hn)

/-- **What is left of an entry in time after any steps that are none of the owner's**: all of it, but
for the count. -/
theorem Registered.aside_run {ls : List RegistryLabel} (hs : s.Registered)
    (hp : s.pending id = some p)
    (h : (registryMachine nonce).Run (Aside nonce id p.registration) s ls t)
    (hx : t.expired p = false) (hmax : t.wrongTokens p.registration < maxTokenFailures) :
    t.Registered ∧ t.pending id = some { p with tokenFailures := t.wrongTokens p.registration } ∧
      t.contexts p.registration = s.contexts p.registration := by
  -- by induction on the run, for the entry as its first step leaves it
  generalize hr : p.registration = r at h hmax ⊢
  induction h generalizing p with
  | nil s =>
    obtain ⟨hcount, -⟩ := hs.failures id p hp
    subst hr
    rw [hcount]
    exact ⟨hs, hp, rfl⟩
  | @cons s s₁ t l ls hl hn hrun ih =>
    subst hr
    have hlater := Later.of_run hrun
    have hmax₁ := (hlater.wrongTokens p.registration).trans_lt hmax
    have hp₁ := hs.aside hp hl hn (hlater.expired hx) hmax₁
    have hc₁ := hs.aside_contexts hp hl hn
    obtain ⟨ht, hpt, hct⟩ := ih (hs.moves (next_moves hn)) hp₁ hx rfl hmax
    exact ⟨ht, hpt, hct.trans hc₁⟩

/-- The right token redeems an entry in time, if nothing else is wrong. -/
theorem redeemBridge_ok (hp : s.pending id = some p) (hx : s.expired p = false)
    (hl : s.isLiveBridge id = false) (hn : (noncePart p.token).any (· ≠ nonce) = false)
    (hv : validateGrantSet p.state.tables p.state.createSchemas id true = .ok ()) :
    s.redeemBridge nonce id p.token (.ok ()) = (.ok s.redeemed, s.purge.attach id p) := by
  rw [redeemBridge_pending hn hp hx, if_neg (not_not.2 rfl), hl, if_neg Bool.false_ne_true, hv]

theorem Registered.not_live (hs : s.Registered) (hp : s.pending id = some p) :
    s.isLiveBridge id = false := by
  rw [isLiveBridge, liveBridge, hs.exclusive id p hp]
  rfl

/-- What the owner of a pending registration may rely on, whatever targets try. -/
structure RefusalsFree (nonce : String) (s : Registry) : Prop where
  /-- A refused attempt changes no book, no context, no clock and no call. -/
  frame : ∀ id token settings e, (s.redeemBridge nonce id token settings).1 = .error e →
    ∃ pending events, (s.redeemBridge nonce id token settings).2 =
      { s with pending := pending, history := events ++ s.history }
  /-- Of an entry it changes the count, and this only where the token is wrong. -/
  entries : ∀ id token settings e id' p',
    (s.redeemBridge nonce id token settings).1 = .error e →
      (s.redeemBridge nonce id token settings).2.pending id' = some p' →
        s.pending id' = some p' ∨ ∃ p, id' = id ∧ s.pending id = some p ∧ token ≠ p.token ∧
          p' = { p with tokenFailures := p.tokenFailures + 1 }
  /-- It drops what is expired or closed, and what has had too many wrong tokens. -/
  dropped : ∀ id token settings e id' p,
    (s.redeemBridge nonce id token settings).1 = .error e → s.pending id' = some p →
      (s.redeemBridge nonce id token settings).2.pending id' = none →
        s.expired p = true ∨
          id' = id ∧ token ≠ p.token ∧ maxTokenFailures ≤ p.tokenFailures + 1
  /-- After refused attempts and whatever else is none of the owner's, the right token redeems the same
  policy, in time. -/
  redeems : ∀ id p ls t, s.pending id = some p →
    (registryMachine nonce).Run (Aside nonce id p.registration) s ls t → t.expired p = false →
      t.wrongTokens p.registration < maxTokenFailures →
        (noncePart p.token).any (· ≠ nonce) = false →
          validateGrantSet p.state.tables p.state.createSchemas id true = .ok () →
            (t.redeemBridge nonce id p.token (.ok ())).1 = .ok t.redeemed ∧
              (t.redeemBridge nonce id p.token (.ok ())).2.bridges t.redeemed =
                some (bookOf id p) ∧
              (t.redeemBridge nonce id p.token (.ok ())).2.contexts p.registration =
                s.contexts p.registration
  /-- A target that succeeds gets the pending policy, finalized or not, with its context. -/
  handsOver : ∀ id token settings b, (s.redeemBridge nonce id token settings).1 = .ok b →
    ∃ p, s.pending id = some p ∧ s.expired p = false ∧ token = p.token ∧
      (s.redeemBridge nonce id token settings).2.bridges b = some (bookOf id p) ∧
      (s.redeemBridge nonce id token settings).2.live id = some ⟨p.sourceDb, p.source, b⟩ ∧
      (s.redeemBridge nonce id token settings).2.pending id = none ∧
      (s.redeemBridge nonce id token settings).2.contexts = s.contexts

theorem Registered.refusalsFree (hs : s.Registered) : s.RefusalsFree nonce where
  frame id token settings e he := by
    -- refused before or after the purge, or for a wrong token; or it succeeds
    rcases redeemBridge_cases s nonce id token settings with ⟨-, -, heq | heq⟩ | ⟨-, q, -, -, -, -, heq⟩ | ⟨q, heq, -⟩
    · exact ⟨s.pending, [], heq⟩
    · exact ⟨s.purge.pending, [], heq⟩
    · rw [wrongToken_eq] at heq
      exact ⟨_, [_], heq⟩
    · rw [heq] at he
      cases he
  entries id token settings e id' p' he hp' := by
    have purged : s.purge.pending id' = some p' → s.pending id' = some p' :=
      fun h => (expired_of_purge h).1
    rcases redeemBridge_cases s nonce id token settings with ⟨-, -, heq | heq⟩ | ⟨-, q, -, hq, -, ht, heq⟩ | ⟨q, heq, -⟩
    · rw [heq] at hp'
      exact .inl hp'
    · rw [heq] at hp'
      exact .inl (purged hp')
    · rw [heq, pending_wrongToken, afterWrongToken] at hp'
      split_ifs at hp' with hid
      · exact .inr ⟨q, hid, hq, ht, (Option.some.inj hp').symm⟩
      · exact .inl (purged hp')
    · rw [heq] at he
      cases he
  dropped id token settings e id' p he hp hnone := by
    by_cases hx : s.expired p = true
    · exact .inl hx
    have hpurge := pending_purge hp (Bool.eq_false_iff.2 hx)
    rcases redeemBridge_cases s nonce id token settings with ⟨-, -, heq | heq⟩ | ⟨-, q, -, hq, -, ht, heq⟩ | ⟨q, heq, -⟩
    · rw [heq, hp] at hnone
      cases hnone
    · rw [heq, hpurge] at hnone
      cases hnone
    · rw [heq, pending_wrongToken, afterWrongToken] at hnone
      split_ifs at hnone with hid hmax
      · subst hid
        cases hp.symm.trans hq
        exact .inr ⟨rfl, ht, hmax⟩
      · rw [hpurge] at hnone
        cases hnone
    · rw [heq] at he
      cases he
  redeems id p ls t hp hrun hx hmax hn hv := by
    obtain ⟨ht, hpt, hct⟩ := hs.aside_run hp hrun hx hmax
    have hok := redeemBridge_ok hpt hx (ht.not_live hpt) hn hv
    rw [hok]
    exact ⟨rfl, (bridges_attach _ _ _ _).trans (if_pos rfl), hct⟩
  handsOver id token settings b hb := by
    rcases redeemBridge_cases s nonce id token settings with ⟨e, he, -⟩ | ⟨e, q, he, -⟩ | ⟨q, heq, hq, hx, ht⟩
    · rw [he] at hb
      cases hb
    · rw [he] at hb
      cases hb
    · rw [heq] at hb ⊢
      cases hb
      exact ⟨q, hq, hx, ht, (bridges_attach _ _ _ _).trans (if_pos rfl),
        (live_attach _ _ _ _).trans (if_pos rfl),
        (s.purge.pending_dropPending id id).trans (if_pos rfl), rfl⟩

/-- **A refused redeem costs nothing**, in every reachable registry. -/
theorem refused_costs_nothing (h : (registryMachine nonce).ReachableBy Machine.Free {} s) :
    s.RefusalsFree nonce :=
  (registered_of_reachable h).refusalsFree

theorem refused_costs_nothing_guess : Sample.registry.RefusalsFree "n" :=
  refused_costs_nothing ⟨Sample.labels, Machine.run_of_exec rfl⟩

/-! ### The tokens that registration takes -/

/-- An attempt with the token of a registration finds nothing in its way: the registration is pending
and in time, its instance open, no bridge of the id live, and the grant set holds together. -/
structure Ready (s : Registry) (id : String) (p : PendingSource) : Prop where
  pending : s.pending id = some p
  inTime : s.expired p = false
  free : s.isLiveBridge id = false
  valid : validateGrantSet p.state.tables p.state.createSchemas id true = .ok ()

/-- The token that registration answers stays that of the registration. -/
theorem token_of_register {db : Nat} {pin : Except BridgeError SourcePin} {chosen : Option String}
    {uuid : String} {C : Registry → RegistryLabel → Prop}
    (hreg : s.registerSource nonce db id pin chosen uuid = (.ok token, s'))
    (hrun : (registryMachine nonce).ReachableBy C s' t) (hp : t.pending id = some p)
    (hr : p.registration = s.registrations) : p.token = token := by
  -- the entry under `id`, if it is still this registration, keeps the token
  have hinv : s.registrations < t.registrations ∧ ∀ q, t.pending id = some q →
      q.registration = s.registrations → q.token = token := by
    refine hrun.invariant (I := fun t => s.registrations < t.registrations ∧
      ∀ q, t.pending id = some q → q.registration = s.registrations → q.token = token) ?_
        fun s₁ l s₂ h₁ _ hn => ?_
    · unfold registerSource at hreg
      split at hreg
      · cases hreg
      split at hreg
      · cases hreg
      split at hreg
      · cases hreg
      dsimp only at hreg
      split at hreg
      · cases hreg
      cases hreg
      refine ⟨Nat.lt_succ_self _, fun q hq _ => ?_⟩
      rw [pending_addPending, if_pos rfl] at hq
      cases hq
      rfl
    · have hc := Continues.of_moves (next_moves hn)
      refine ⟨h₁.1.trans_le hc.registrations, fun q hq heq => ?_⟩
      rcases hc.pending id q hq with hnew | ⟨q₁, hq₁, hr₁, -, ht₁, -⟩
      · have := h₁.1
        omega
      · rw [ht₁]
        exact h₁.2 q₁ hq₁ (hr₁.symm.trans heq)
  exact hinv.2 p hp hr

/-- **An accepted registration can be redeemed just if its token has no colon, or the nonce before its
first one**, whoever does what in between. -/
theorem accepted_redeems_iff {db : Nat} {pin : Except BridgeError SourcePin}
    {chosen : Option String} {uuid : String} {C : Registry → RegistryLabel → Prop}
    (hreg : s.registerSource nonce db id pin chosen uuid = (.ok token, s'))
    (hrun : (registryMachine nonce).ReachableBy C s' t) (hp : t.Ready id p)
    (hr : p.registration = s.registrations) :
    (∃ b, (t.redeemBridge nonce id token (.ok ())).1 = .ok b) ↔
      ∀ part, noncePart token = some part → part = nonce := by
  have htoken := token_of_register hreg hrun hp.pending hr
  constructor
  · rintro ⟨b, hb⟩ part hpart
    by_contra hne
    have hn : (noncePart token).any (· ≠ nonce) = true := by simp [hpart, hne]
    rw [redeemBridge, if_pos hn] at hb
    cases hb
  · intro h
    have hn : (noncePart p.token).any (· ≠ nonce) = false := by
      rw [htoken]
      cases hpart : noncePart token with
      | none => rfl
      | some part => simp [h part hpart]
    exact ⟨t.redeemed, by rw [← htoken, redeemBridge_ok hp.pending hp.inTime hp.free hn hp.valid]⟩

namespace Sample

/-- The owner lets the target create tables. -/
def granting : List RegistryLabel :=
  [.setPolicy 0 "b" (.set (.create ⟨"", "s", ""⟩ true)), .snapshot 0, .resolve 0 view, .finish 0]

/-- The registry after instance 0 has registered with a secret of its own. -/
def chosen (token : String) : Registry :=
  (({} : Registry).registerSource "n" 0 "b" (.ok ⟨0, "main"⟩) (some token) "").2

/-- The registry after that and a policy. -/
def granted (token : String) : Registry := ((registryMachine "n").exec (chosen token) granting).getD {}

/-- The entry then. -/
def entry (token : String) : PendingSource :=
  { registration := 0, sourceDb := 0, token := token, source := ⟨0, "main"⟩, lastTouched := 0,
    state := PolicyCommit.applyPending (copyPolicy {}) (.create "s" true) }

theorem ready {token : String} (h : token ∈ ["my:secret", "my-secret"]) :
    (granted token).Ready "b" (entry token) := by
  simp only [List.mem_cons, List.not_mem_nil, or_false] at h
  rcases h with rfl | rfl <;> exact ⟨rfl, rfl, rfl, rfl⟩

theorem reachable {token : String} (h : token ∈ ["my:secret", "my-secret"]) :
    (registryMachine "n").ReachableBy Machine.Free (chosen token) (granted token) := by
  simp only [List.mem_cons, List.not_mem_nil, or_false] at h
  rcases h with rfl | rfl <;> exact ⟨granting, Machine.run_of_exec rfl⟩

end Sample

/-- Instance 0 registers with a secret of its own that has a colon. -/
theorem not_accepted_redeems : ¬ ∀ (nonce id token : String) (s s' t : Registry) (db : Nat)
    (pin : Except BridgeError SourcePin) (chosen : Option String) (uuid : String)
    (p : PendingSource), (registryMachine nonce).ReachableBy Machine.Free {} s →
      s.registerSource nonce db id pin chosen uuid = (.ok token, s') →
        (registryMachine nonce).ReachableBy Machine.Free s' t → t.Ready id p →
          p.registration = s.registrations →
            ∃ b, (t.redeemBridge nonce id token (.ok ())).1 = .ok b := by
  intro h
  have htoken : "my:secret" ∈ ["my:secret", "my-secret"] := List.mem_cons_self
  obtain ⟨b, hb⟩ := h "n" "b" "my:secret" {} (Sample.chosen "my:secret") (Sample.granted "my:secret") 0
    (.ok ⟨0, "main"⟩) (some "my:secret") "" _ (.refl _) rfl (Sample.reachable htoken)
      (Sample.ready htoken) rfl
  cases hb

/-- The docs' own token. -/
theorem accepted_redeems_secret :
    (∃ b, ((Sample.granted "my-secret").redeemBridge "n" "b" "my-secret" (.ok ())).1 = .ok b) ↔
      ∀ part, noncePart "my-secret" = some part → part = "n" := by
  have htoken : "my-secret" ∈ ["my:secret", "my-secret"] := List.mem_cons_of_mem _ List.mem_cons_self
  have hreg : ({} : Registry).registerSource "n" 0 "b" (.ok ⟨0, "main"⟩) (some "my-secret") "" =
      (.ok "my-secret", Sample.chosen "my-secret") := rfl
  exact accepted_redeems_iff hreg (Sample.reachable htoken) (Sample.ready htoken) rfl

end Registry

end VirtualCatalog
