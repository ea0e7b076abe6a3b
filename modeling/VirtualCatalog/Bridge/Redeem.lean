import VirtualCatalog.Bridge.Registry

/-!
# Registration, redeeming and the end of a source

A registration is pending until a target redeems it, five wrong tokens or thirty idle seconds drop
it, or its instance closes.  Re-registering an id, redeeming and the death of sources interleave
freely.

* `Registry.Registered` : the invariant: which entry, book and event belong to which registration.
* `Registry.Continues` : the entries that are still there keep token and source, and only a call of
  their own instance touches them.
* `Registry.Safe`, `registry_safe` : what holds of every reachable registry.
-/

namespace VirtualCatalog

/-- The event is a comparison with a wrong token. -/
def RegistryEvent.isWrongToken : RegistryEvent → Bool
  | wrongToken => true
  | _ => false

/-- The event is the end of the pending entry by a target that has its token. -/
def RegistryEvent.isRedeemed : RegistryEvent → Bool
  | redeemed => true
  | _ => false

/-- What a book is known by. -/
def Bridge.skeleton (bridge : Bridge) : Nat × String × Bool :=
  (bridge.registration, bridge.bridgeId, bridge.attached)

namespace Registry

/-- How often something happened to a registration. -/
def occurrences (s : Registry) (r : Nat) (kind : RegistryEvent → Bool) : Nat :=
  s.history.countP fun e => decide (e.1 = r) && kind e.2

/-- The comparisons of a registration's token with a wrong one. -/
abbrev wrongTokens (s : Registry) (r : Nat) : Nat := s.occurrences r RegistryEvent.isWrongToken

/-- How often a registration was redeemed. -/
abbrev redemptions (s : Registry) (r : Nat) : Nat := s.occurrences r RegistryEvent.isRedeemed

variable {s s' : Registry} {agent : Agent} {nonce : String}

theorem occurrences_note (s : Registry) (r r' : Nat) (event : RegistryEvent)
    (kind : RegistryEvent → Bool) : (s.note r' event).occurrences r kind =
      s.occurrences r kind + if r' = r ∧ kind event = true then 1 else 0 := by
  rw [occurrences, note, List.countP_cons]
  simp only [Bool.and_eq_true, decide_eq_true_eq]
  rfl

/-! ### The invariant -/

/-- Which entry, book and event belong to which registration. -/
structure Registered (s : Registry) : Prop where
  numbered : ∀ id p, s.pending id = some p → p.registration < s.registrations
  distinct : ∀ id id' p p', s.pending id = some p → s.pending id' = some p' →
    p.registration = p'.registration → id = id'
  unredeemed : ∀ id p, s.pending id = some p → s.redemptions p.registration = 0
  failures : ∀ id p, s.pending id = some p →
    s.wrongTokens p.registration = p.tokenFailures ∧ p.tokenFailures < maxTokenFailures
  exclusive : ∀ id p, s.pending id = some p → s.live id = none
  unmade : ∀ b, s.redeemed ≤ b → s.bridges b = none
  books : ∀ b bridge, s.bridges b = some bridge →
    bridge.registration < s.registrations ∧ s.redemptions bridge.registration = 1
  oneBook : ∀ b b' bridge bridge', s.bridges b = some bridge → s.bridges b' = some bridge' →
    bridge.registration = bridge'.registration → b = b'
  live : ∀ id entry, s.live id = some entry →
    ∃ bridge, s.bridges entry.grants = some bridge ∧ bridge.bridgeId = id ∧ bridge.attached = true
  attached : ∀ b bridge, s.bridges b = some bridge → bridge.attached = true →
    ∃ entry, s.live bridge.bridgeId = some entry ∧ entry.grants = b
  once : ∀ r, s.redemptions r ≤ 1
  limit : ∀ r, s.wrongTokens r ≤ maxTokenFailures
  fresh : ∀ r, s.registrations ≤ r → s.redemptions r = 0 ∧ s.wrongTokens r = 0

/-- Nothing is registered, redeemed or destroyed, and no token is compared. -/
structure Quiet (s s' : Registry) : Prop where
  pending : ∀ id p', s'.pending id = some p' → ∃ p, s.pending id = some p ∧
    p'.registration = p.registration ∧ p'.tokenFailures = p.tokenFailures ∧
      p'.sourceDb = p.sourceDb ∧ p'.source = p.source
  live : s'.live = s.live
  bridges : ∀ b, (s'.bridges b).map Bridge.skeleton = (s.bridges b).map Bridge.skeleton
  redeemed : s'.redeemed = s.redeemed
  registrations : s'.registrations = s.registrations
  redemptions : ∀ r, s'.redemptions r = s.redemptions r
  wrongTokens : ∀ r, s'.wrongTokens r = s.wrongTokens r

/-- A registry in which nothing has happened yet. -/
theorem registered_empty : Registered {} where
  numbered _ _ h := by cases h
  distinct _ _ _ _ h := by cases h
  unredeemed _ _ h := by cases h
  failures _ _ h := by cases h
  exclusive _ _ h := by cases h
  unmade _ _ := rfl
  books _ _ h := by cases h
  oneBook _ _ _ _ h := by cases h
  live _ _ h := by cases h
  attached _ _ h := by cases h
  once _ := Nat.zero_le _
  limit _ := Nat.zero_le _
  fresh _ _ := ⟨rfl, rfl⟩

namespace Quiet

/-- A book afterwards was there before. -/
theorem bridge (h : s.Quiet s') {b : Nat} {bridge' : Bridge} (hb : s'.bridges b = some bridge') :
    ∃ bridge, s.bridges b = some bridge ∧ bridge'.registration = bridge.registration ∧
      bridge'.bridgeId = bridge.bridgeId ∧ bridge'.attached = bridge.attached := by
  have := h.bridges b
  rw [hb] at this
  obtain ⟨bridge, hbridge, hs⟩ := Option.map_eq_some_iff.1 this.symm
  simp only [Bridge.skeleton, Prod.mk.injEq] at hs
  exact ⟨bridge, hbridge, hs.1.symm, hs.2.1.symm, hs.2.2.symm⟩

theorem symm_bridge (h : s.Quiet s') {b : Nat} {bridge : Bridge} (hb : s.bridges b = some bridge) :
    ∃ bridge', s'.bridges b = some bridge' ∧ bridge'.bridgeId = bridge.bridgeId ∧
      bridge'.attached = bridge.attached := by
  have := h.bridges b
  rw [hb] at this
  obtain ⟨bridge', hbridge, hs⟩ := Option.map_eq_some_iff.1 this
  simp only [Bridge.skeleton, Prod.mk.injEq] at hs
  exact ⟨bridge', hbridge, hs.2.1, hs.2.2⟩

/-- One entry changes, but not what it is known by. -/
theorem setPending {id : String} {p p' : PendingSource} (hp : s.pending id = some p)
    (hr : p'.registration = p.registration) (hf : p'.tokenFailures = p.tokenFailures)
    (hd : p'.sourceDb = p.sourceDb) (hs : p'.source = p.source) :
    s.Quiet (s.setPending id p') where
  pending id' q hq := by
    rw [pending_setPending] at hq
    split_ifs at hq with hid
    · cases hq
      exact ⟨p, hid ▸ hp, hr, hf, hd, hs⟩
    · exact ⟨q, hq, rfl, rfl, rfl, rfl⟩
  live := rfl
  bridges _ := rfl
  redeemed := rfl
  registrations := rfl
  redemptions _ := rfl
  wrongTokens _ := rfl

/-- One book changes, but not what it is known by. -/
theorem setBridge {b : Nat} {bridge bridge' : Bridge} (hb : s.bridges b = some bridge)
    (h : bridge'.skeleton = bridge.skeleton) : s.Quiet (s.setBridge b bridge') where
  pending id p hp := ⟨p, hp, rfl, rfl, rfl, rfl⟩
  live := rfl
  bridges b' := by
    rw [bridges_setBridge]
    split_ifs with hbb
    · rw [hbb, hb, Option.map_some, Option.map_some, h]
    · rfl
  redeemed := rfl
  registrations := rfl
  redemptions _ := rfl
  wrongTokens _ := rfl

/-- Another event is noted. -/
theorem note (h : s.Quiet s') {r : Nat} {event : RegistryEvent} (hr : event.isRedeemed = false)
    (hw : event.isWrongToken = false) : s.Quiet (s'.note r event) where
  pending := h.pending
  live := h.live
  bridges := h.bridges
  redeemed := h.redeemed
  registrations := h.registrations
  redemptions r' := by rw [Registry.redemptions, occurrences_note, hr]; simpa using h.redemptions r'
  wrongTokens r' := by rw [Registry.wrongTokens, occurrences_note, hw]; simpa using h.wrongTokens r'

/-- Entries are dropped. -/
theorem drop {pending : String → Option PendingSource}
    (h : ∀ id p, pending id = some p → s.pending id = some p) :
    s.Quiet { s with pending := pending } where
  pending id p hp := ⟨p, h id p hp, rfl, rfl, rfl, rfl⟩
  live := rfl
  bridges _ := rfl
  redeemed := rfl
  registrations := rfl
  redemptions _ := rfl
  wrongTokens _ := rfl

/-- Nothing the registrations are known by changes. -/
theorem same (hp : s'.pending = s.pending) (hl : s'.live = s.live) (hb : s'.bridges = s.bridges)
    (hr : s'.redeemed = s.redeemed) (hn : s'.registrations = s.registrations)
    (hh : s'.history = s.history) : s.Quiet s' where
  pending id p h := ⟨p, hp ▸ h, rfl, rfl, rfl, rfl⟩
  live := hl
  bridges b := by rw [hb]
  redeemed := hr
  registrations := hn
  redemptions r := by rw [Registry.redemptions, occurrences, hh]; rfl
  wrongTokens r := by rw [Registry.wrongTokens, occurrences, hh]; rfl

end Quiet

/-- Quiet changes keep the invariant. -/
theorem Registered.quiet (hr : s.Registered) (h : s.Quiet s') : s'.Registered where
  numbered id p' hp := by
    obtain ⟨p, hp, heq, -⟩ := h.pending id p' hp
    rw [heq, h.registrations]
    exact hr.numbered id p hp
  distinct id id' p₁ p₂ h₁ h₂ heq := by
    obtain ⟨q₁, hq₁, e₁, -⟩ := h.pending id p₁ h₁
    obtain ⟨q₂, hq₂, e₂, -⟩ := h.pending id' p₂ h₂
    exact hr.distinct id id' q₁ q₂ hq₁ hq₂ (e₁.symm.trans (heq.trans e₂))
  unredeemed id p' hp := by
    obtain ⟨p, hp, heq, -⟩ := h.pending id p' hp
    rw [heq, h.redemptions]
    exact hr.unredeemed id p hp
  failures id p' hp := by
    obtain ⟨p, hp, heq, hf, -⟩ := h.pending id p' hp
    rw [heq, h.wrongTokens, hf]
    exact hr.failures id p hp
  exclusive id p' hp := by
    obtain ⟨p, hp, -⟩ := h.pending id p' hp
    rw [h.live]
    exact hr.exclusive id p hp
  unmade b hb := by
    have := h.bridges b
    rw [hr.unmade b (h.redeemed ▸ hb)] at this
    simpa using this
  books b bridge' hb := by
    obtain ⟨bridge, hb, heq, -⟩ := h.bridge hb
    rw [heq, h.registrations, h.redemptions]
    exact hr.books b bridge hb
  oneBook b b' bridge₁ bridge₂ h₁ h₂ heq := by
    obtain ⟨q₁, hq₁, e₁, -⟩ := h.bridge h₁
    obtain ⟨q₂, hq₂, e₂, -⟩ := h.bridge h₂
    exact hr.oneBook b b' q₁ q₂ hq₁ hq₂ (e₁.symm.trans (heq.trans e₂))
  live id entry he := by
    obtain ⟨bridge, hb, hid, ha⟩ := hr.live id entry (h.live ▸ he)
    obtain ⟨bridge', hb', hid', ha'⟩ := h.symm_bridge hb
    exact ⟨bridge', hb', hid'.trans hid, ha'.trans ha⟩
  attached b bridge' hb ha := by
    obtain ⟨bridge, hb, -, hid, ha'⟩ := h.bridge hb
    rw [h.live, hid]
    exact hr.attached b bridge hb (ha'.symm.trans ha)
  once r := by rw [h.redemptions]; exact hr.once r
  limit r := by rw [h.wrongTokens]; exact hr.limit r
  fresh r hle := by
    rw [h.redemptions, h.wrongTokens]
    exact hr.fresh r (h.registrations ▸ hle)

theorem dropPending_sub {id id' : String} {p : PendingSource}
    (h : (s.dropPending id).pending id' = some p) : s.pending id' = some p ∧ id' ≠ id := by
  rw [pending_dropPending] at h
  split_ifs at h with hid
  exact ⟨h, hid⟩

/-- Without a live book, an id has no live entry. -/
theorem Registered.live_none (h : s.Registered) {id : String} (hl : s.isLiveBridge id = false) :
    s.live id = none := by
  cases he : s.live id with
  | none => rfl
  | some entry =>
    obtain ⟨bridge, hb, -, ha⟩ := h.live id entry he
    have : s.liveBridge id = some (entry, bridge) := by
      rw [liveBridge, he, Option.bind_some, hb, Option.filter_some_pos (by simp [Bridge.alive, ha])]
      rfl
    rw [isLiveBridge, this] at hl
    cases hl

/-! ### The four moves that are not quiet -/

theorem redemptions_note_wrongToken (s : Registry) (r r' : Nat) :
    (s.note r' .wrongToken).redemptions r = s.redemptions r := by
  rw [redemptions, occurrences_note]
  simp [RegistryEvent.isRedeemed]

theorem wrongTokens_note_redeemed (s : Registry) (r' r : Nat) :
    (s.note r' .redeemed).wrongTokens r = s.wrongTokens r := by
  rw [wrongTokens, occurrences_note]
  simp [RegistryEvent.isWrongToken]

/-- A registration is a new number under a free id. -/
theorem Registered.addPending (h : s.Registered) {id : String} {p : PendingSource}
    (hl : s.isLiveBridge id = false) (hr : p.registration = s.registrations)
    (hf : p.tokenFailures = 0) : (s.addPending id p).Registered := by
  have old : ∀ id' q, (s.addPending id p).pending id' = some q →
      id' = id ∧ q = p ∨ id' ≠ id ∧ s.pending id' = some q := by
    intro id' q hq
    rw [pending_addPending] at hq
    split_ifs at hq with hid
    · exact .inl ⟨hid, (Option.some.inj hq).symm⟩
    · exact .inr ⟨hid, hq⟩
  obtain ⟨hfr, hfw⟩ := h.fresh p.registration hr.ge
  constructor
  case numbered =>
    intro id' q hq
    change q.registration < s.registrations + 1
    -- the new number is above every number in use
    rcases old id' q hq with ⟨-, rfl⟩ | ⟨-, hq⟩
    · omega
    · have := h.numbered id' q hq
      omega
  case distinct =>
    intro id₁ id₂ q₁ q₂ h₁ h₂ heq
    rcases old id₁ q₁ h₁ with ⟨rfl, rfl⟩ | ⟨-, s₁⟩ <;>
      rcases old id₂ q₂ h₂ with ⟨rfl, rfl⟩ | ⟨-, s₂⟩
    · rfl
    · have := h.numbered id₂ q₂ s₂
      omega
    · have := h.numbered id₁ q₁ s₁
      omega
    · exact h.distinct id₁ id₂ q₁ q₂ s₁ s₂ heq
  case unredeemed =>
    intro id' q hq
    rcases old id' q hq with ⟨-, rfl⟩ | ⟨-, hq⟩
    · exact hfr
    · exact h.unredeemed id' q hq
  case failures =>
    intro id' q hq
    rcases old id' q hq with ⟨-, rfl⟩ | ⟨-, hq⟩
    · exact ⟨hfw.trans hf.symm, hf ▸ by decide⟩
    · exact h.failures id' q hq
  case exclusive =>
    intro id' q hq
    rcases old id' q hq with ⟨rfl, -⟩ | ⟨-, hq⟩
    · exact h.live_none hl
    · exact h.exclusive id' q hq
  case books =>
    intro b bridge hb
    obtain ⟨hlt, hone⟩ := h.books b bridge hb
    exact ⟨Nat.lt_succ_of_lt hlt, hone⟩
  case fresh =>
    intro r hle
    exact h.fresh r (Nat.le_of_succ_le hle)
  case unmade => exact h.unmade
  case oneBook => exact h.oneBook
  case live => exact h.live
  case attached => exact h.attached
  case once => exact h.once
  case limit => exact h.limit

/-- What is left of an entry after a wrong token. -/
def afterWrongToken (p : PendingSource) : Option PendingSource :=
  if maxTokenFailures ≤ p.tokenFailures + 1 then none
  else some { p with tokenFailures := p.tokenFailures + 1 }

theorem wrongToken_eq (s : Registry) (id : String) (p : PendingSource) : s.wrongToken id p = { s with
    pending := Function.update s.pending id (afterWrongToken p)
    history := (p.registration, .wrongToken) :: s.history } := by
  rw [wrongToken, afterWrongToken]
  split <;> rfl

theorem wrongTokens_wrongToken (s : Registry) (id : String) (p : PendingSource) (r : Nat) :
    (s.wrongToken id p).wrongTokens r = s.wrongTokens r + if p.registration = r then 1 else 0 := by
  rw [wrongToken, wrongTokens, occurrences_note]
  split <;> simp [RegistryEvent.isWrongToken] <;> rfl

theorem pending_wrongToken (s : Registry) (id : String) (p : PendingSource) (id' : String) :
    (s.wrongToken id p).pending id' = if id' = id then afterWrongToken p else s.pending id' := by
  rw [wrongToken_eq]
  exact Function.update_apply ..

/-- The fifth wrong token drops the entry, an earlier one counts. -/
theorem Registered.wrongToken (h : s.Registered) {id : String} {p : PendingSource}
    (hp : s.pending id = some p) : (s.wrongToken id p).Registered := by
  obtain ⟨hcount, hlt⟩ := h.failures id p hp
  have redeemed : ∀ r, (s.wrongToken id p).redemptions r = s.redemptions r := by
    intro r
    rw [Registry.wrongToken, redemptions_note_wrongToken]
    split <;> rfl
  -- an entry that is still there, with its count
  have old : ∀ id' q, (s.wrongToken id p).pending id' = some q →
      ∃ q₀, s.pending id' = some q₀ ∧ q.registration = q₀.registration ∧
        (id' = id ∧ q₀ = p ∧ q.tokenFailures = p.tokenFailures + 1 ∧
            p.tokenFailures + 1 < maxTokenFailures ∨
          id' ≠ id ∧ q.tokenFailures = q₀.tokenFailures) := by
    intro id' q hq
    rw [pending_wrongToken, afterWrongToken] at hq
    split_ifs at hq with hid hmax
    · cases hq
      exact ⟨p, hid ▸ hp, rfl, .inl ⟨hid, rfl, rfl, by omega⟩⟩
    · exact ⟨q, hq, rfl, .inr ⟨hid, rfl⟩⟩
  have live : (s.wrongToken id p).live = s.live := by rw [wrongToken_eq]
  have bridges : (s.wrongToken id p).bridges = s.bridges := by rw [wrongToken_eq]
  have number : (s.wrongToken id p).registrations = s.registrations := by rw [wrongToken_eq]
  have made : (s.wrongToken id p).redeemed = s.redeemed := by rw [wrongToken_eq]
  constructor
  case numbered =>
    intro id' q hq
    obtain ⟨q₀, hq₀, heq, -⟩ := old id' q hq
    rw [heq, number]
    exact h.numbered id' q₀ hq₀
  case distinct =>
    intro id₁ id₂ q₁ q₂ h₁ h₂ heq
    obtain ⟨r₁, hr₁, e₁, -⟩ := old id₁ q₁ h₁
    obtain ⟨r₂, hr₂, e₂, -⟩ := old id₂ q₂ h₂
    exact h.distinct id₁ id₂ r₁ r₂ hr₁ hr₂ (e₁.symm.trans (heq.trans e₂))
  case unredeemed =>
    intro id' q hq
    obtain ⟨q₀, hq₀, heq, -⟩ := old id' q hq
    rw [heq, redeemed]
    exact h.unredeemed id' q₀ hq₀
  case failures =>
    intro id' q hq
    obtain ⟨q₀, hq₀, heq, ⟨-, rfl, hf, hmax⟩ | ⟨hid, hf⟩⟩ := old id' q hq
    · rw [heq, wrongTokens_wrongToken, if_pos rfl, hf, hcount]
      exact ⟨rfl, hmax⟩
    · obtain ⟨hc, hm⟩ := h.failures id' q₀ hq₀
      have hne : ¬ p.registration = q₀.registration :=
        fun heq => hid (h.distinct id' id q₀ p hq₀ hp heq.symm)
      rw [heq, wrongTokens_wrongToken, if_neg hne, hf]
      exact ⟨hc, hm⟩
  case exclusive =>
    intro id' q hq
    obtain ⟨q₀, hq₀, -⟩ := old id' q hq
    rw [live]
    exact h.exclusive id' q₀ hq₀
  case unmade => rw [made, bridges]; exact h.unmade
  case books =>
    intro b bridge hb
    rw [number, redeemed]
    exact h.books b bridge (bridges ▸ hb)
  case oneBook => rw [bridges]; exact h.oneBook
  case live => rw [live, bridges]; exact h.live
  case attached => rw [live, bridges]; exact h.attached
  case once => intro r; rw [redeemed]; exact h.once r
  case limit =>
    intro r
    rw [wrongTokens_wrongToken]
    split_ifs with hr
    · subst hr
      omega
    · exact h.limit r
  case fresh =>
    intro r hle
    have hne : ¬ p.registration = r := by
      have := h.numbered id p hp
      rw [number] at hle
      omega
    rw [redeemed, wrongTokens_wrongToken, if_neg hne]
    exact h.fresh r (number ▸ hle)

/-- The registration of a pending entry gets its only book. -/
theorem Registered.attach (h : s.Registered) {id : String} {p : PendingSource}
    (hp : s.pending id = some p) : (s.attach id p).Registered := by
  have none_live := h.exclusive id p hp
  have redeemed : ∀ r, (s.attach id p).redemptions r =
      s.redemptions r + if p.registration = r then 1 else 0 := by
    intro r
    change ((s.dropPending id).note p.registration .redeemed).redemptions r = _
    rw [redemptions, occurrences_note]
    simp [RegistryEvent.isRedeemed]
    rfl
  have wrong : ∀ r, (s.attach id p).wrongTokens r = s.wrongTokens r :=
    wrongTokens_note_redeemed (s.dropPending id) p.registration
  -- every other entry stays, and belongs to another registration
  have old : ∀ id' q, (s.attach id p).pending id' = some q → s.pending id' = some q ∧ id' ≠ id :=
    fun id' q hq => dropPending_sub hq
  have other : ∀ id' q, (s.attach id p).pending id' = some q → p.registration ≠ q.registration :=
    fun id' q hq heq =>
      (old id' q hq).2 (h.distinct id' id q p (old id' q hq).1 hp heq.symm)
  -- the number of the new book was free, and no book is of this registration
  have unmade := h.unmade s.redeemed le_rfl
  have made := s.bridges_attach id p
  have unbooked : ∀ b bridge, s.bridges b = some bridge → p.registration ≠ bridge.registration := by
    intro b bridge hb heq
    have h₀ := h.unredeemed id p hp
    rw [heq, (h.books b bridge hb).2] at h₀
    cases h₀
  have lives := s.live_attach id p
  constructor
  case numbered => exact fun id' q hq => h.numbered id' q (old id' q hq).1
  case distinct =>
    exact fun id₁ id₂ q₁ q₂ h₁ h₂ => h.distinct id₁ id₂ q₁ q₂ (old id₁ q₁ h₁).1 (old id₂ q₂ h₂).1
  case unredeemed =>
    intro id' q hq
    rw [redeemed, if_neg (other id' q hq)]
    exact h.unredeemed id' q (old id' q hq).1
  case failures =>
    intro id' q hq
    rw [wrong]
    exact h.failures id' q (old id' q hq).1
  case exclusive =>
    intro id' q hq
    rw [lives, if_neg (old id' q hq).2]
    exact h.exclusive id' q (old id' q hq).1
  case unmade =>
    intro b hb
    have hb : s.redeemed + 1 ≤ b := hb
    rw [made, if_neg (by omega)]
    exact h.unmade b (by omega)
  case books =>
    intro b bridge hb
    rw [made] at hb
    split_ifs at hb
    · cases hb
      have hreg : (bookOf id p).registration = p.registration := rfl
      rw [hreg, redeemed, if_pos rfl, h.unredeemed id p hp]
      exact ⟨h.numbered id p hp, rfl⟩
    · rw [redeemed, if_neg (unbooked b bridge hb)]
      exact h.books b bridge hb
  case oneBook =>
    intro b₁ b₂ bridge₁ bridge₂ h₁ h₂ heq
    rw [made] at h₁ h₂
    split_ifs at h₁ h₂ with e₁ e₂ e₂
    · exact e₁.trans e₂.symm
    · cases h₁
      exact absurd heq (unbooked b₂ bridge₂ h₂)
    · cases h₂
      exact absurd heq.symm (unbooked b₁ bridge₁ h₁)
    · exact h.oneBook b₁ b₂ bridge₁ bridge₂ h₁ h₂ heq
  case live =>
    intro id' entry he
    rw [lives] at he
    split_ifs at he with hid
    · cases he
      exact ⟨_, (made _).trans (if_pos rfl), hid.symm, rfl⟩
    · obtain ⟨bridge, hb, hbid, ha⟩ := h.live id' entry he
      refine ⟨bridge, ?_, hbid, ha⟩
      rw [made, if_neg ?_]
      · exact hb
      · intro heq
        rw [heq, unmade] at hb
        cases hb
  case attached =>
    intro b bridge hb ha
    rw [made] at hb
    split_ifs at hb with hbr
    · cases hb
      exact ⟨_, (lives id).trans (if_pos rfl), hbr.symm⟩
    · obtain ⟨entry, he, hg⟩ := h.attached b bridge hb ha
      have hid : bridge.bridgeId ≠ id := by
        intro heq
        rw [heq, none_live] at he
        cases he
      exact ⟨entry, (lives _).trans ((if_neg hid).trans he), hg⟩
  case once =>
    intro r
    rw [redeemed]
    split_ifs with hr
    · rw [← hr, h.unredeemed id p hp]
    · exact h.once r
  case limit => intro r; rw [wrong]; exact h.limit r
  case fresh =>
    intro r hle
    have hne : ¬ p.registration = r := by
      have := h.numbered id p hp
      have hle : s.registrations ≤ r := hle
      omega
    rw [redeemed, wrong, if_neg hne]
    exact h.fresh r hle

/-- Only the live entry of the book itself goes. -/
theorem live_destroySource (s : Registry) (b : Nat) (bridge : Bridge) (id : String) :
    (s.destroySource b bridge).live id =
      if id = bridge.bridgeId ∧ (∃ entry, s.live id = some entry ∧ entry.grants = b) then none
      else s.live id := by
  unfold destroySource
  split
  next hn =>
    rw [if_neg]
    · rfl
    · rintro ⟨rfl, entry, he, -⟩
      rw [hn] at he
      cases he
  next entry he =>
    split_ifs with hg hid hid
    · exact (Function.update_apply ..).trans (if_pos hid.1)
    · refine (Function.update_apply ..).trans (if_neg fun heq => hid ⟨heq, entry, heq ▸ he, hg⟩)
    · obtain ⟨rfl, entry', he', hg'⟩ := hid
      rw [he] at he'
      cases he'
      exact absurd hg' hg
    · rfl

/-- Nothing else changes, but for the book that is no longer attached. -/
theorem destroySource_eq (s : Registry) (b : Nat) (bridge : Bridge) : ∃ live,
    s.destroySource b bridge = { s.setBridge b { bridge with attached := false } with live := live } := by
  unfold destroySource
  split
  · exact ⟨_, rfl⟩
  · split_ifs
    · exact ⟨_, rfl⟩
    · exact ⟨_, rfl⟩

/-- A source that is destroyed takes its own live entry along. -/
theorem Registered.destroySource (h : s.Registered) {b : Nat} {bridge : Bridge}
    (hb : s.bridges b = some bridge) : (s.destroySource b bridge).Registered := by
  have lives := s.live_destroySource b bridge
  obtain ⟨live, heq⟩ := s.destroySource_eq b bridge
  rw [heq] at lives ⊢
  change ∀ id, live id = _ at lives
  have bridges : ∀ b', (s.setBridge b { bridge with attached := false }).bridges b' =
      if b' = b then some { bridge with attached := false } else s.bridges b' :=
    s.bridges_setBridge b _
  -- a book afterwards was there before, and attached if it is now
  have old : ∀ b₁ bridge₁, (s.setBridge b { bridge with attached := false }).bridges b₁ = some bridge₁ →
      ∃ bridge₀, s.bridges b₁ = some bridge₀ ∧ bridge₁.registration = bridge₀.registration ∧
        (bridge₁.attached = true → b₁ ≠ b ∧ bridge₁ = bridge₀) := by
    intro b₁ bridge₁ h₁
    rw [bridges] at h₁
    split_ifs at h₁ with hbb
    · cases h₁
      exact ⟨bridge, hbb ▸ hb, rfl, fun ha => by cases ha⟩
    · exact ⟨bridge₁, h₁, rfl, fun _ => ⟨hbb, rfl⟩⟩
  exact {
    numbered := h.numbered
    distinct := h.distinct
    unredeemed := h.unredeemed
    failures := h.failures
    exclusive := by
      intro id p hp
      change live id = none
      rw [lives, h.exclusive id p hp, ite_self]
    unmade := by
      intro b' hle
      have hne : b' ≠ b := by
        rintro rfl
        rw [h.unmade b' hle] at hb
        cases hb
      exact (bridges b').trans ((if_neg hne).trans (h.unmade b' hle))
    books := by
      intro b₁ bridge₁ h₁
      obtain ⟨bridge₀, h₀, hr, -⟩ := old b₁ bridge₁ h₁
      rw [hr]
      exact h.books b₁ bridge₀ h₀
    oneBook := by
      intro b₁ b₂ bridge₁ bridge₂ h₁ h₂ heq
      obtain ⟨q₁, hq₁, e₁, -⟩ := old b₁ bridge₁ h₁
      obtain ⟨q₂, hq₂, e₂, -⟩ := old b₂ bridge₂ h₂
      exact h.oneBook b₁ b₂ q₁ q₂ hq₁ hq₂ (e₁.symm.trans (heq.trans e₂))
    live := by
      intro id entry he
      change live id = some entry at he
      rw [lives] at he
      split_ifs at he with hown
      obtain ⟨bridge₀, h₀, hid, ha⟩ := h.live id entry he
      have hne : entry.grants ≠ b := by
        intro hg
        rw [hg, hb] at h₀
        cases h₀
        exact hown ⟨hid.symm, entry, he, hg⟩
      exact ⟨bridge₀, (bridges _).trans ((if_neg hne).trans h₀), hid, ha⟩
    attached := by
      intro b₁ bridge₁ h₁ ha
      obtain ⟨bridge₀, h₀, -, hsame⟩ := old b₁ bridge₁ h₁
      obtain ⟨hne, rfl⟩ := hsame ha
      obtain ⟨entry, he, hg⟩ := h.attached b₁ bridge₁ h₀ ha
      refine ⟨entry, (lives _).trans ((if_neg ?_).trans he), hg⟩
      rintro ⟨-, entry', he', hg'⟩
      rw [he] at he'
      cases he'
      exact hne (hg.symm.trans hg')
    once := h.once
    limit := h.limit
    fresh := h.fresh }

/-- The moves that are not quiet, one case for each. -/
theorem Move.quiet_or (hm : Move agent s s') : s.Quiet s' ∨
    (∃ id p, agent = .registrant p.sourceDb id ∧ s.isLiveBridge id = false ∧
      p.registration = s.registrations ∧ p.tokenFailures = 0 ∧ s' = s.addPending id p) ∨
    (∃ id p, s.pending id = some p ∧ s' = s.wrongToken id p) ∨
    (∃ id p, s.pending id = some p ∧ s' = s.attach id p) ∨
    ∃ b bridge, s.bridges b = some bridge ∧ s' = s.destroySource b bridge := by
  cases hm with
  | register id p ha hp hl hr hf => exact .inr (.inl ⟨id, p, ha, hl, hr, hf, rfl⟩)
  | wrongToken id token p hp => exact .inr (.inr (.inl ⟨id, p, hp, rfl⟩))
  | attach id p hp => exact .inr (.inr (.inr (.inl ⟨id, p, hp, rfl⟩)))
  | destroySource b bridge hb => exact .inr (.inr (.inr (.inr ⟨b, bridge, hb, rfl⟩)))
  | purge => exact .inl (.drop fun id p hp => (Option.filter_eq_some_iff.1 hp).1)
  | touch id p hp => exact .inl (.setPending hp rfl rfl rfl rfl)
  | drop id => exact .inl (.drop fun id' p hp => (dropPending_sub hp).1)
  | commitPending call commit p hcall hs hp =>
    refine .inl (.note ?_ rfl rfl)
    exact .setPending hp rfl rfl rfl rfl
  | commitLive call commit entry bridge book hcall hs hp hl =>
    refine .inl (.note ?_ rfl rfl)
    exact .setBridge (bridges_of_liveBridge hl).2.1 rfl
  | finalizePending id p hp =>
    refine .inl (.note ?_ rfl rfl)
    exact .setPending hp rfl rfl rfl rfl
  | finalizeLive b bridge hb =>
    refine .inl (.note ?_ rfl rfl)
    exact .setBridge hb rfl
  | session b bridge hb => exact .inl (.setBridge hb rfl)
  | holds b bridge hb => exact .inl (.setBridge hb rfl)
  | _ => exact .inl (.same rfl rfl rfl rfl rfl rfl)

/-- **Every move keeps the invariant.** -/
theorem Registered.move (h : s.Registered) (hm : Move agent s s') : s'.Registered := by
  rcases hm.quiet_or with hq | ⟨id, p, -, hl, hr, hf, rfl⟩ | ⟨id, p, hp, rfl⟩ | ⟨id, p, hp, rfl⟩ |
    ⟨b, bridge, hb, rfl⟩
  · exact h.quiet hq
  · exact h.addPending hl hr hf
  · exact h.wrongToken hp
  · exact h.attach hp
  · exact h.destroySource hb

theorem Registered.moves (h : s.Registered) (hm : Moves agent s s') : s'.Registered := by
  induction hm with
  | refl => exact h
  | tail _ hm ih => exact ih.move hm

/-- Every reachable registry keeps its registrations apart. -/
theorem registered_of_reachable {C : Registry → RegistryLabel → Prop}
    (h : (registryMachine nonce).ReachableBy C {} s) : s.Registered :=
  h.invariant registered_empty fun _ _ _ hr _ hs => hr.moves (next_moves hs)

/-! ### What becomes of an entry -/

/-- An entry is of a new registration, or it was there before with the same token and source; only its
own instance's calls touch it. -/
structure Continues (agent : Agent) (s s' : Registry) : Prop where
  registrations : s.registrations ≤ s'.registrations
  pending : ∀ id p', s'.pending id = some p' → s.registrations ≤ p'.registration ∨
    ∃ p, s.pending id = some p ∧ p'.registration = p.registration ∧ p'.sourceDb = p.sourceDb ∧
      p'.token = p.token ∧ p'.source = p.source ∧
        (p'.lastTouched = p.lastTouched ∨ agent = .owner p.sourceDb id)

namespace Continues

theorem refl (s : Registry) : s.Continues agent s :=
  ⟨le_rfl, fun _ p' hp => .inr ⟨p', hp, rfl, rfl, rfl, rfl, .inl rfl⟩⟩

theorem trans {s₁ : Registry} (h : s.Continues agent s₁) (h' : s₁.Continues agent s') :
    s.Continues agent s' := by
  refine ⟨h.registrations.trans h'.registrations, fun id p' hp' => ?_⟩
  rcases h'.pending id p' hp' with hnew | ⟨p₁, hp₁, hr', hd', ht', hs', hl'⟩
  · exact .inl (h.registrations.trans hnew)
  · rcases h.pending id p₁ hp₁ with hnew | ⟨p, hp, hr, hd, ht, hs, hl⟩
    · exact .inl (hr' ▸ hnew)
    · refine .inr ⟨p, hp, hr'.trans hr, hd'.trans hd, ht'.trans ht, hs'.trans hs, ?_⟩
      rcases hl' with hl' | ha
      · rcases hl with hl | ha
        · exact .inl (hl'.trans hl)
        · exact .inr ha
      · exact .inr (hd ▸ ha)

/-- The entries are those of before, if they are there at all. -/
theorem of_sub (h : ∀ id p, s'.pending id = some p → s.pending id = some p)
    (hn : s.registrations = s'.registrations) : s.Continues agent s' :=
  ⟨hn.le, fun id p' hp => .inr ⟨p', h id p' hp, rfl, rfl, rfl, rfl, .inl rfl⟩⟩

/-- One entry changes. -/
theorem of_setPending {id : String} {p p' : PendingSource} (hp : s.pending id = some p)
    (hr : p'.registration = p.registration) (hd : p'.sourceDb = p.sourceDb)
    (ht : p'.token = p.token) (hs : p'.source = p.source)
    (hl : p'.lastTouched = p.lastTouched ∨ agent = .owner p.sourceDb id) :
    s.Continues agent (s.setPending id p') := by
  refine ⟨le_rfl, fun id' q hq => .inr ?_⟩
  rw [pending_setPending] at hq
  split_ifs at hq with hid
  · cases hq
    subst hid
    exact ⟨p, hp, hr, hd, ht, hs, hl⟩
  · exact ⟨q, hq, rfl, rfl, rfl, rfl, .inl rfl⟩

theorem note (h : s.Continues agent s') {r : Nat} {event : RegistryEvent} :
    s.Continues agent (s'.note r event) := ⟨h.registrations, h.pending⟩

theorem of_move (hm : Move agent s s') : s.Continues agent s' := by
  cases hm with
  | purge => exact of_sub (fun id p hp => (Option.filter_eq_some_iff.1 hp).1) rfl
  | touch id p hp ha => exact of_setPending hp rfl rfl rfl rfl (.inr ha)
  | register id p ha hp hl hr =>
    refine ⟨Nat.le_succ _, fun id' q hq => ?_⟩
    rw [pending_addPending] at hq
    split_ifs at hq with hid
    · cases hq
      exact .inl hr.ge
    · exact .inr ⟨q, hq, rfl, rfl, rfl, rfl, .inl rfl⟩
  | wrongToken id token p hp =>
    rw [wrongToken]
    refine note ?_
    split
    · exact of_sub (fun id' q hq => (dropPending_sub hq).1) rfl
    · exact of_setPending hp rfl rfl rfl rfl (.inl rfl)
  | drop id => exact of_sub (fun id' q hq => (dropPending_sub hq).1) rfl
  | attach id p => exact of_sub (fun id' q hq => (dropPending_sub hq).1) rfl
  | destroySource b bridge =>
    obtain ⟨live, heq⟩ := s.destroySource_eq b bridge
    rw [heq]
    exact of_sub (fun _ _ hq => hq) rfl
  | commitPending call commit p hcall hs hp =>
    refine note ?_
    exact of_setPending hp rfl rfl rfl rfl (.inl rfl)
  | finalizePending id p hp =>
    refine note ?_
    exact of_setPending hp rfl rfl rfl rfl (.inl rfl)
  | _ => exact of_sub (fun _ _ hq => hq) rfl

theorem of_moves (hm : Moves agent s s') : s.Continues agent s' := by
  induction hm with
  | refl => exact refl s
  | tail _ hm ih => exact ih.trans (of_move hm)

end Continues

/-- Only a target redeems. -/
theorem redemptions_of_moves (hm : Moves agent s s') (ha : ∀ id token, agent ≠ .target id token)
    (r : Nat) : s'.redemptions r = s.redemptions r := by
  induction hm with
  | refl => rfl
  | tail _ hm ih =>
    rw [← ih]
    cases hm with
    | wrongToken id token p hp hag => exact absurd hag (ha id token)
    | attach id p hp hx hag => exact absurd hag (ha id p.token)
    | destroySource b bridge =>
      rename_i s₁ _ _ _
      obtain ⟨live, heq⟩ := s₁.destroySource_eq b bridge
      rw [heq]
      rfl
    | _ =>
      first
      | rfl
      | exact (occurrences_note _ _ _ _ _).trans (by simp [RegistryEvent.isRedeemed]; rfl)

/-- What a target's attempt does to the registrations. -/
theorem redeemBridge_spec {id token : String} {settings : Except BridgeError Unit} {r : Nat}
    (h : (s.redeemBridge nonce id token settings).2.redemptions r ≠ s.redemptions r) :
    ∃ p, s.pending id = some p ∧ s.expired p = false ∧ p.registration = r ∧ token = p.token := by
  unfold redeemBridge at h
  split at h
  · exact absurd rfl h
  split at h
  · exact absurd rfl h
  next p hp =>
    obtain ⟨hp, hx⟩ := expired_of_purge hp
    split at h
    next ht =>
      refine absurd ?_ h
      rw [wrongToken, redemptions_note_wrongToken]
      split <;> rfl
    next ht =>
      have heq : p.token = token := constantTimeEquals_iff.1 (by simpa using ht)
      refine ⟨p, hp, hx, ?_, heq.symm⟩
      by_contra hr
      refine h ?_
      split
      · rfl
      split
      · rfl
      split
      · rfl
      split
      · rfl
      · change ((s.purge.dropPending id).note p.registration .redeemed).redemptions r = _
        rw [redemptions, occurrences_note, if_neg fun hc => hr hc.1]
        rfl

/-! ### Safety -/

/-- What the owners and targets of a registry may rely on. -/
structure Safe (nonce : String) (s : Registry) : Prop where
  /-- No id is both pending and live. -/
  exclusive : ∀ id p, s.pending id = some p → s.expired p = false → s.isLiveBridge id = false
  /-- An id has at most one source. -/
  oneSource : ∀ b b' bridge bridge', s.bridges b = some bridge → s.bridges b' = some bridge' →
    bridge.attached = true → bridge'.attached = true → bridge.bridgeId = bridge'.bridgeId → b = b'
  redeemedOnce : ∀ r, s.redemptions r ≤ 1
  /-- Only the token of the entry that is pending now redeems its registration. -/
  redeems : ∀ l s' r, s.next nonce l = some s' → s'.redemptions r ≠ s.redemptions r →
    ∃ id settings p, l = .redeem id p.token settings ∧ s.pending id = some p ∧
      s.expired p = false ∧ p.registration = r
  /-- Every source that is made counts as a redemption. -/
  counted : ∀ id token settings b, (s.redeemBridge nonce id token settings).1 = .ok b →
    ∃ p, s.pending id = some p ∧ (s.redeemBridge nonce id token settings).2.redemptions
      p.registration = s.redemptions p.registration + 1
  /-- Every wrong token that is compared counts. -/
  compared : ∀ id token settings p, s.pending id = some p → s.expired p = false →
    (noncePart token).any (· ≠ nonce) = false → token ≠ p.token →
      (s.redeemBridge nonce id token settings).2.wrongTokens p.registration =
        s.wrongTokens p.registration + 1
  dropped : ∀ r, maxTokenFailures ≤ s.wrongTokens r → ∀ id p, s.pending id = some p →
    p.registration ≠ r
  /-- Only the calls of its own instance push back the expiry of an entry. -/
  expiry : ∀ l s' id p p', s.next nonce l = some s' → s.pending id = some p →
    s'.pending id = some p' → p'.registration = p.registration →
      p'.lastTouched = p.lastTouched ∨ s.agent l = .owner p.sourceDb id
  /-- The end of a source removes no live entry but its own. -/
  destroyed : ∀ b s', s.next nonce (.destroySource b) = some s' → ∀ id,
    s'.live id = s.live id ∨ s'.live id = none ∧ ∃ entry, s.live id = some entry ∧ entry.grants = b
  /-- A source that is gone has no live entry. -/
  gone : ∀ b bridge, s.bridges b = some bridge → bridge.attached = false →
    ∀ id entry, s.live id = some entry → entry.grants ≠ b

theorem Registered.safe (h : s.Registered) : s.Safe nonce where
  exclusive id p hp _ := by
    rw [isLiveBridge, liveBridge, h.exclusive id p hp]
    rfl
  oneSource b b' bridge bridge' hb hb' ha ha' hid := by
    obtain ⟨entry, he, hg⟩ := h.attached b bridge hb ha
    obtain ⟨entry', he', hg'⟩ := h.attached b' bridge' hb' ha'
    rw [hid, he'] at he
    cases he
    exact hg.symm.trans hg'
  redeemedOnce := h.once
  redeems l s' r hs hr := by
    -- only the target redeems
    by_cases ha : ∀ id token, s.agent l ≠ .target id token
    · exact absurd (redemptions_of_moves (next_moves hs) ha r) hr
    · push Not at ha
      obtain ⟨id, token, ha⟩ := ha
      cases l with
      | redeem id' token' settings =>
        cases hs
        obtain ⟨p, hp, hx, hreg, rfl⟩ := redeemBridge_spec hr
        exact ⟨id', settings, p, rfl, hp, hx, hreg⟩
      | finish i =>
        rw [agent] at ha
        split at ha <;> cases ha
      | _ => cases ha
  counted id token settings b hok := by
    -- a success went through every check, in the order of the source
    have hn : ¬ (noncePart token).any (· ≠ nonce) = true := by
      intro hn
      simp only [redeemBridge, hn, if_true] at hok
      cases hok
    rw [redeemBridge, if_neg hn] at hok ⊢
    split at hok
    · cases hok
    next p hp =>
      refine ⟨p, (expired_of_purge hp).1, ?_⟩
      split at hok
      · cases hok
      next ht =>
        split at hok
        · cases hok
        next hl =>
          split at hok
          · cases hok
          next u hv =>
            split at hok
            · cases hok
            next hc =>
              split at hok
              · cases hok
              · rw [if_neg ht, if_neg hl]
                simp only [if_neg hc]
                change ((s.purge.dropPending id).note p.registration .redeemed).redemptions
                  p.registration = _
                rw [redemptions, occurrences_note, if_pos ⟨rfl, rfl⟩]
                rfl
  compared id token settings p hp hx hn ht := by
    have hpurge : s.purge.pending id = some p := by
      change (s.pending id).filter _ = _
      rw [hp, Option.filter_some_pos (by rw [hx]; rfl)]
    have hne : constantTimeEquals p.token token = false := by
      rw [Bool.eq_false_iff]
      exact fun heq => ht (constantTimeEquals_iff.1 heq).symm
    simp only [redeemBridge, hn, hpurge, hne, Bool.false_eq_true, if_false, if_true]
    rw [wrongTokens_wrongToken, if_pos rfl]
    rfl
  dropped r hmax id p hp heq := by
    obtain ⟨hc, hlt⟩ := h.failures id p hp
    rw [heq] at hc
    omega
  expiry l s' id p p' hs hp hp' hr := by
    rcases (Continues.of_moves (next_moves hs)).pending id p' hp' with hnew | ⟨q, hq, -, -, -, -, hl⟩
    · have := h.numbered id p hp
      omega
    · rw [hp] at hq
      cases hq
      exact hl
  destroyed b s' hs id := by
    obtain ⟨bridge, hb, hs⟩ := Option.bind_eq_some_iff.1 hs
    split_ifs at hs
    cases hs
    rw [live_destroySource]
    split_ifs with hown
    · exact .inr ⟨rfl, hown.2⟩
    · exact .inl rfl
  gone b bridge hb ha id entry he hg := by
    obtain ⟨bridge', hb', -, ha'⟩ := h.live id entry he
    rw [hg, hb] at hb'
    cases hb'
    rw [ha] at ha'
    cases ha'

/-- **Every reachable registry is safe**, whatever registers, redeems, expires and dies. -/
theorem registry_safe (h : (registryMachine nonce).ReachableBy Machine.Free {} s) : s.Safe nonce :=
  (registered_of_reachable h).safe

namespace Sample

/-- Two instances register two sources, and a target comes with a wrong token for the first. -/
def labels : List RegistryLabel :=
  [.register 0 "b" (.ok ⟨0, "main"⟩) (some "secret") "", .tick 5000000000,
    .register 1 "c" (.ok ⟨1, "main"⟩) none "u", .redeem "b" "guess" (.ok ()), .close 1]

/-- The registry after that. -/
def registry : Registry := ((registryMachine "n").exec {} labels).getD {}

end Sample

theorem registry_safe_guess : Sample.registry.Safe "n" :=
  registry_safe ⟨Sample.labels, Machine.run_of_exec rfl⟩

end Registry

end VirtualCatalog
