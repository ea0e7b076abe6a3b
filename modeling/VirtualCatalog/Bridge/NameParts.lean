import VirtualCatalog.Bridge.SetPolicy

/-!
# The grammar of policy names

A name is a sequence of parts between dots, each in quotes or bare.  The scanner keeps the part
read so far and whether it is inside quotes; what it has consumed of a part is `begun`.

* `NamePart`, `NamePart.Ok` : a part as it is written, and which parts may be written.
* `IsReading` : a text read as parts.
* `reading_of_scan` : what the scanner accepts has a reading with the parts it returns.
* `scan_of_reading` : every text with a reading is accepted, with the parts of the reading.
* `IsReading.unique` : no text has two readings.
-/

namespace VirtualCatalog

/-- A part of a name, as it is written. -/
inductive NamePart where
  | quoted (text : String)
  | bare (text : String)
deriving DecidableEq

namespace NamePart

/-- What the part stands for. -/
def value : NamePart → String
  | quoted text => text
  | bare text => text

/-- How the part is written. -/
def spelling : NamePart → List Char
  | quoted text => quotePart text
  | bare text => text.toList

/-- No part is empty; a bare one has no quote, no dot and no space at its ends. -/
def Ok : NamePart → Prop
  | quoted text => text ≠ ""
  | bare text => text ≠ "" ∧ '"' ∉ text.toList ∧ '.' ∉ text.toList ∧
      (∀ c ∈ text.toList.head?, characterIsSpace c = false) ∧
      ∀ c ∈ text.toList.getLast?, characterIsSpace c = false

end NamePart

/-- The parts with dots between them. -/
def spellParts (r : List NamePart) : List Char := ['.'].intercalate (r.map NamePart.spelling)

/-- `r` is a way to read the text as the parts of a name. -/
structure IsReading (text : List Char) (r : List NamePart) : Prop where
  nonempty : r ≠ []
  parts : ∀ p ∈ r, p.Ok
  spelled : text = spellParts r

@[simp] theorem spellParts_single (p : NamePart) : spellParts [p] = p.spelling := by
  simp [spellParts, List.intercalate]

theorem spellParts_cons (p : NamePart) {r : List NamePart} (h : r ≠ []) :
    spellParts (p :: r) = p.spelling ++ '.' :: spellParts r := by
  cases r with
  | nil => exact absurd rfl h
  | cons q r => simp [spellParts, List.intercalate]

theorem IsReading.single {p : NamePart} (h : p.Ok) : IsReading p.spelling [p] :=
  ⟨List.cons_ne_nil _ _, by simpa using h, (spellParts_single p).symm⟩

theorem IsReading.cons {p : NamePart} {cs : List Char} {r : List NamePart} (h : p.Ok)
    (hr : IsReading cs r) : IsReading (p.spelling ++ '.' :: cs) (p :: r) := by
  refine ⟨List.cons_ne_nil _ _, List.forall_mem_cons.2 ⟨h, hr.parts⟩, ?_⟩
  rw [spellParts_cons p hr.nonempty, hr.spelled]

/-! ### What the scanner accepts -/

/-- The part that ends here. -/
def NameScan.part (scan : NameScan) (part : List Char) : NamePart :=
  match scan with
  | .bare => .bare (.ofList part)
  | _ => .quoted (.ofList part)

/-- What has been consumed of a part. -/
def NameScan.begun (scan : NameScan) (part : List Char) : List Char :=
  match scan with
  | .bare => part
  | .inQuote => '"' :: doubleQuotes part
  | .quoted => '"' :: (doubleQuotes part ++ ['"'])

/-- What is known of the part read so far. -/
def NameScan.Begun (scan : NameScan) (part : List Char) : Prop :=
  scan = .bare → '"' ∉ part ∧ '.' ∉ part

theorem doubleQuotes_append (cs ds : List Char) :
    doubleQuotes (cs ++ ds) = doubleQuotes cs ++ doubleQuotes ds := by
  fun_induction doubleQuotes cs with
  | case1 => rfl
  | case2 cs ih => rw [List.cons_append, doubleQuotes, ih, List.cons_append, List.cons_append]
  | case3 c cs hc ih =>
    rw [List.cons_append, doubleQuotes, ih, List.cons_append]
    exact hc

section

variable {text : String} {scan : NameScan} {part cs : List Char} {p : String}

/-- A part that may end here is a part that may be written. -/
theorem ok_of_finishPart (h : finishPart text scan part = .ok p) (hb : scan.Begun part) :
    (scan.part part).Ok ∧ (scan.part part).value = p := by
  have hne : String.ofList part ≠ "" := by
    obtain ⟨_, hempty, -⟩ := bind_eq_ok h
    intro hp
    exact throwIf_eq_ok.1 hempty (by simpa using congrArg String.toList hp)
  obtain ⟨_, -, h⟩ := bind_eq_ok h
  cases scan with
  | bare =>
    obtain ⟨_, hspace, h⟩ := bind_eq_ok h
    cases h
    rw [throwIf_eq_ok, Bool.or_eq_true, not_or] at hspace
    obtain ⟨hq, hd⟩ := hb rfl
    refine ⟨⟨hne, ?_⟩, rfl⟩
    rw [String.toList_ofList]
    refine ⟨hq, hd, fun c hc => ?_, fun c hc => ?_⟩
    · rw [Option.mem_def.1 hc] at hspace
      exact Bool.eq_false_of_not_eq_true hspace.1
    · rw [Option.mem_def.1 hc] at hspace
      exact Bool.eq_false_of_not_eq_true hspace.2
  | inQuote =>
    cases h
    exact ⟨hne, rfl⟩
  | quoted =>
    cases h
    exact ⟨hne, rfl⟩

/-- Outside quotes, what has been consumed is the part as it is written. -/
theorem spelling_part (h : scan ≠ .inQuote) : (scan.part part).spelling = scan.begun part := by
  cases scan with
  | bare => exact String.toList_ofList
  | inQuote => exact absurd rfl h
  | quoted =>
    show '"' :: (doubleQuotes (String.ofList part).toList ++ ['"']) = _
    rw [String.toList_ofList]
    rfl

/-- What the scanner accepts has a reading with the parts it returns. -/
theorem reading_of_scan {ps : List String} (h : scanNameParts text scan part cs = .ok ps)
    (hb : scan.Begun part) :
    ∃ r, IsReading (scan.begun part ++ cs) r ∧ r.map NamePart.value = ps := by
  fun_induction scanNameParts text scan part cs generalizing ps with
  | case1 => cases h
  | case2 part cs ih =>
    -- a doubled quote stands for one
    obtain ⟨r, hr, hv⟩ := ih h (by rintro ⟨⟩)
    refine ⟨r, ?_, hv⟩
    have : NameScan.begun .inQuote (part ++ ['"']) ++ cs
        = NameScan.begun .inQuote part ++ '"' :: '"' :: cs := by
      show '"' :: doubleQuotes (part ++ ['"']) ++ cs = _
      rw [doubleQuotes_append]
      simp [NameScan.begun, doubleQuotes]
    rwa [this] at hr
  | case3 part cs hcs ih =>
    obtain ⟨_, -, h⟩ := bind_eq_ok h
    obtain ⟨_, -, h⟩ := bind_eq_ok h
    obtain ⟨r, hr, hv⟩ := ih h (by rintro ⟨⟩)
    refine ⟨r, ?_, hv⟩
    have : NameScan.begun .quoted part ++ cs = NameScan.begun .inQuote part ++ '"' :: cs := by
      simp [NameScan.begun]
    rwa [this] at hr
  | case4 part c cs hc hcs ih =>
    obtain ⟨r, hr, hv⟩ := ih h (by rintro ⟨⟩)
    refine ⟨r, ?_, hv⟩
    have : NameScan.begun .inQuote (part ++ [c]) ++ cs
        = NameScan.begun .inQuote part ++ c :: cs := by
      show '"' :: doubleQuotes (part ++ [c]) ++ cs = _
      rw [doubleQuotes_append, doubleQuotes]
      · simp [NameScan.begun, doubleQuotes]
      · exact hcs
    rwa [this] at hr
  | case5 scan part hs =>
    obtain ⟨p, hp, h⟩ := bind_eq_ok h
    cases h
    obtain ⟨hok, hv⟩ := ok_of_finishPart hp hb
    refine ⟨[scan.part part], ?_, by rw [List.map_singleton, hv]⟩
    rw [List.append_nil, ← spelling_part hs]
    exact .single hok
  | case6 scan part cs hs ih =>
    obtain ⟨p, hp, h⟩ := bind_eq_ok h
    obtain ⟨_, -, h⟩ := bind_eq_ok h
    obtain ⟨ps', hps, h⟩ := bind_eq_ok h
    cases h
    obtain ⟨hok, hv⟩ := ok_of_finishPart hp hb
    obtain ⟨r, hr, hvs⟩ := ih hps fun _ => ⟨List.not_mem_nil, List.not_mem_nil⟩
    refine ⟨scan.part part :: r, ?_, by rw [List.map_cons, hv, hvs]⟩
    rw [← spelling_part hs]
    exact .cons hok hr
  | case7 cs ih => exact ih h (by rintro ⟨⟩)
  | case8 => cases h
  | case9 => cases h
  | case10 part c cs hd hq hq' ih =>
    obtain ⟨r, hr, hv⟩ := ih h fun _ => by
      obtain ⟨hbq, hbd⟩ := hb rfl
      simp only [List.mem_append, List.mem_singleton, not_or]
      exact ⟨⟨hbq, fun h => hq' h.symm⟩, hbd, fun h => hd h.symm⟩
    refine ⟨r, ?_, hv⟩
    have : NameScan.begun .bare (part ++ [c]) ++ cs = NameScan.begun .bare part ++ c :: cs := by
      simp [NameScan.begun]
    rwa [this] at hr

/-! ### What is accepted -/

/-- Bare text without a quote or a dot is read to its end. -/
theorem scanNameParts_bare {read rest : List Char} (hq : '"' ∉ part) (hd : '.' ∉ part) :
    scanNameParts text .bare read (part ++ rest) =
      scanNameParts text .bare (read ++ part) rest := by
  induction part generalizing read with
  | nil => rw [List.nil_append, List.append_nil]
  | cons c part ih =>
    rw [List.mem_cons, not_or] at hq hd
    rw [List.cons_append, scanNameParts, ih hq.2 hd.2, List.append_assoc, List.singleton_append]
    · exact fun h => hd.1 (Eq.symm h)
    · exact fun h => hq.1 (Eq.symm h)
    · exact fun _ h => hq.1 (Eq.symm h)

/-- How the scan stands behind a part. -/
def NamePart.stage : NamePart → NameScan
  | quoted _ => .quoted
  | bare _ => .bare

theorem NamePart.Ok.value_ne {p : NamePart} (h : p.Ok) : p.value ≠ "" := by
  cases p with
  | quoted part => exact h
  | bare part => exact h.1

theorem NamePart.Ok.toList_ne {p : NamePart} (h : p.Ok) : p.value.toList ≠ [] := fun hp =>
  h.value_ne (by simpa using congrArg String.ofList hp)

/-- A part that may be written is read to its end. -/
theorem scanNameParts_spelling {p : NamePart} (h : p.Ok) {rest : List Char}
    (hrest : rest = [] ∨ ∃ cs, rest = '.' :: cs) :
    scanNameParts text .bare [] (p.spelling ++ rest) =
      scanNameParts text p.stage p.value.toList rest := by
  cases p with
  | bare part => exact scanNameParts_bare h.2.1 h.2.2.1
  | quoted part =>
    have hne : part.toList ≠ [] := NamePart.Ok.toList_ne (p := .quoted part) h
    have hquote : rest.head? ≠ some '"' := by
      obtain rfl | ⟨cs, rfl⟩ := hrest
      · exact nofun
      · simp
    have hdot : ¬ rest.head?.any (· ≠ '.') = true := by
      obtain rfl | ⟨cs, rfl⟩ := hrest
      · simp
      · simp
    show scanNameParts text .bare [] (quotePart part ++ rest) = _
    rw [quotePart, List.cons_append, List.append_assoc, scanNameParts, List.singleton_append,
      scanNameParts_quoted hquote, List.nil_append, throwIf_neg hne, throwIf_neg hdot]
    rfl

theorem spellParts_ne {r : List NamePart} (hne : r ≠ []) (h : ∀ p ∈ r, p.Ok) :
    spellParts r ≠ [] := by
  cases r with
  | nil => exact absurd rfl hne
  | cons p r =>
    have hp : p.spelling ≠ [] := by
      have hok := h p List.mem_cons_self
      cases p with
      | quoted part => exact List.cons_ne_nil _ _
      | bare part => exact hok.toList_ne
    by_cases hnil : r = []
    · rw [hnil, spellParts_single]
      exact hp
    · rw [spellParts_cons p hnil]
      exact List.append_ne_nil_of_left_ne_nil hp _

/-- A part that may be written may end there. -/
theorem finishPart_spelling {p : NamePart} (h : p.Ok) :
    finishPart text p.stage p.value.toList = .ok p.value := by
  rw [finishPart, throwIf_neg h.toList_ne, String.ofList_toList]
  cases p with
  | quoted part => rfl
  | bare part =>
    have hspace : ¬ (part.toList.head?.any characterIsSpace ||
        part.toList.getLast?.any characterIsSpace) = true := by
      rw [Bool.or_eq_true, not_or, Option.any_eq_true, Option.any_eq_true]
      constructor
      · rintro ⟨c, hc, hs⟩
        rw [h.2.2.2.1 c hc] at hs
        cases hs
      · rintro ⟨c, hc, hs⟩
        rw [h.2.2.2.2 c hc] at hs
        cases hs
    show (throwIf _ _ >>= _) = _
    rw [NamePart.value, throwIf_neg hspace]
    rfl

theorem NamePart.stage_ne (p : NamePart) : p.stage ≠ .inQuote := by
  cases p <;> exact nofun

/-- Every text with a reading is accepted, with the parts of the reading. -/
theorem scan_of_reading {r : List NamePart} (h : IsReading cs r) :
    scanNameParts text .bare [] cs = .ok (r.map NamePart.value) := by
  obtain ⟨hne, hparts, rfl⟩ := h
  induction r with
  | nil => exact absurd rfl hne
  | cons p r ih =>
    obtain ⟨hp, hr⟩ := List.forall_mem_cons.1 hparts
    by_cases hnil : r = []
    · subst hnil
      have hend : scanNameParts text .bare [] (p.spelling ++ []) =
          scanNameParts text p.stage p.value.toList [] := scanNameParts_spelling hp (Or.inl rfl)
      rw [List.append_nil] at hend
      rw [spellParts_single, hend, scanNameParts, finishPart_spelling hp]
      · rfl
      · exact p.stage_ne
    · rw [spellParts_cons p hnil, scanNameParts_spelling hp (Or.inr ⟨_, rfl⟩), scanNameParts,
        finishPart_spelling hp, ih hnil hr]
      · rw [throwIf_neg (spellParts_ne hnil hr)]
        rfl
      · exact p.stage_ne

end

/-! ### One reading -/

/-- How a part begins tells whether it is in quotes. -/
theorem NamePart.head_spelling {p : NamePart} (h : p.Ok) (rest : List Char) :
    (p.spelling ++ rest).head? = some '"' ↔ ∃ text, p = .quoted text := by
  cases p with
  | quoted text => exact ⟨fun _ => ⟨text, rfl⟩, fun _ => rfl⟩
  | bare text =>
    refine ⟨fun hhead => ?_, nofun⟩
    have hne : text.toList ≠ [] := NamePart.Ok.toList_ne (p := .bare text) h
    obtain ⟨-, hq, -⟩ := h
    cases htext : text.toList with
    | nil => exact absurd htext hne
    | cons c cs =>
      rw [NamePart.spelling, htext] at hhead
      cases hhead
      rw [htext] at hq
      exact absurd List.mem_cons_self hq

/-- Two parts of one value that begin a text in the same way are one part. -/
theorem NamePart.eq_of_head {p p' : NamePart} (h : p.Ok) (h' : p'.Ok) (hv : p.value = p'.value)
    {rest rest' : List Char} (hs : p.spelling ++ rest = p'.spelling ++ rest') : p = p' := by
  have hquoted : (∃ text, p = .quoted text) ↔ ∃ text, p' = .quoted text := by
    rw [← head_spelling h rest, hs, head_spelling h']
  cases p with
  | quoted text =>
    obtain ⟨text', rfl⟩ := hquoted.1 ⟨text, rfl⟩
    exact congrArg NamePart.quoted hv
  | bare text =>
    cases p' with
    | quoted text' =>
      obtain ⟨_, hbare⟩ := hquoted.2 ⟨text', rfl⟩
      cases hbare
    | bare text' => exact congrArg NamePart.bare hv

theorem spellParts_append (p : NamePart) (r : List NamePart) :
    ∃ rest, spellParts (p :: r) = p.spelling ++ rest := by
  by_cases hnil : r = []
  · exact ⟨[], by rw [hnil, spellParts_single, List.append_nil]⟩
  · exact ⟨_, spellParts_cons p hnil⟩

/-- No text has two readings. -/
theorem IsReading.unique {cs : List Char} {r r' : List NamePart} (h : IsReading cs r)
    (h' : IsReading cs r') : r = r' := by
  have hv : r.map NamePart.value = r'.map NamePart.value :=
    Except.ok.inj ((@scan_of_reading "" _ _ h).symm.trans (scan_of_reading h'))
  obtain ⟨hne, hparts, rfl⟩ := h
  obtain ⟨hne', hparts', hs⟩ := h'
  induction r generalizing r' with
  | nil => exact absurd rfl hne
  | cons p r ih =>
    cases r' with
    | nil => exact absurd rfl hne'
    | cons p' r' =>
      obtain ⟨hp, hr⟩ := List.forall_mem_cons.1 hparts
      obtain ⟨hp', hr'⟩ := List.forall_mem_cons.1 hparts'
      rw [List.map_cons, List.map_cons, List.cons.injEq] at hv
      obtain ⟨rest, hrest⟩ := spellParts_append p r
      obtain ⟨rest', hrest'⟩ := spellParts_append p' r'
      have hpp : p = p' := by
        rw [hrest, hrest'] at hs
        exact NamePart.eq_of_head hp hp' hv.1 hs
      subst hpp
      by_cases hnil : r = []
      · subst hnil
        rw [List.map_eq_nil_iff.1 hv.2.symm]
      · have hnil' : r' ≠ [] := fun h => hnil (List.map_eq_nil_iff.1 (by rw [hv.2, h]; rfl))
        rw [spellParts_cons p hnil, spellParts_cons p hnil', List.append_cancel_left_eq,
          List.cons.injEq] at hs
        rw [ih hv.2 hnil hr hnil' hr' hs.2]

/-- **Names are read by their grammar**: a quoted name is read back, what is accepted is what has
a reading, and the reading is unique and is what is returned. -/
theorem parsePolicyNameParts_spec :
    (∀ ps : List String, ps ≠ [] → (∀ p ∈ ps, p ≠ "") →
      parsePolicyNameParts (quoteName ps) = .ok ps) ∧
    (∀ text : String, (∃ ps, parsePolicyNameParts text = .ok ps) ↔
      ∃ r, IsReading text.toList r) ∧
    ∀ (text : String) (ps : List String), parsePolicyNameParts text = .ok ps →
      ∃ r, IsReading text.toList r ∧ r.map NamePart.value = ps ∧
        ∀ r', IsReading text.toList r' → r' = r := by
  have hread : ∀ (text : String) (ps : List String), parsePolicyNameParts text = .ok ps →
      ∃ r, IsReading text.toList r ∧ r.map NamePart.value = ps := by
    intro text ps h
    have hbegun : NameScan.bare.Begun [] := fun _ => ⟨List.not_mem_nil, List.not_mem_nil⟩
    exact reading_of_scan h hbegun
  refine ⟨fun ps hps hne => scanNameParts_quoteName hps hne, fun text => ⟨?_, ?_⟩, ?_⟩
  · rintro ⟨ps, h⟩
    obtain ⟨r, hr, -⟩ := hread text ps h
    exact ⟨r, hr⟩
  · rintro ⟨r, hr⟩
    exact ⟨_, scan_of_reading hr⟩
  · intro text ps h
    obtain ⟨r, hr, hv⟩ := hread text ps h
    exact ⟨r, hr, hv, fun r' hr' => hr'.unique hr⟩

end VirtualCatalog
