import VirtualCatalog.Json.Value
import Mathlib.Data.List.TakeWhile

/-!
# JSON as text

A tree is written without blanks; in a string the quote, the backslash and the control characters
are escaped and every other character stands for itself.  The parser reads the whole grammar, with
blanks, every escape and every form of a number.

* `Json.text` : the text of a tree.
* `Json.parse` : the tree of a text, if it is one.
* `Json.parse_text` : what is written is read back.
-/

namespace VirtualCatalog

/-! ### Writing -/

/-- A hexadecimal digit. -/
def hexDigit (n : Nat) : Char := if n < 10 then .ofNat (48 + n) else .ofNat (55 + n)

/-- A character of a string. -/
def escapeChar (c : Char) : List Char :=
  if c = '"' then ['\\', '"']
  else if c = '\\' then ['\\', '\\']
  else if c = '\x08' then ['\\', 'b']
  else if c = '\x0c' then ['\\', 'f']
  else if c = '\n' then ['\\', 'n']
  else if c = '\r' then ['\\', 'r']
  else if c = '\t' then ['\\', 't']
  else if c.toNat < 32 then ['\\', 'u', '0', '0', hexDigit (c.toNat / 16), hexDigit (c.toNat % 16)]
  else [c]

/-- A string between quotes. -/
def stringText (cs : List Char) : List Char := '"' :: (cs.flatMap escapeChar ++ ['"'])

/-- An integer. -/
def intText : Int → List Char
  | .ofNat n => Nat.toDigits 10 n
  | .negSucc n => '-' :: Nat.toDigits 10 (n + 1)

/-- A number. -/
def JsonNumber.text : JsonNumber → List Char
  | integer n => intText n
  | decimal mantissa exponent => intText mantissa ++ 'e' :: intText exponent

namespace Json

mutual

/-- The text of a tree. -/
def text : Json → List Char
  | null => ['n', 'u', 'l', 'l']
  | bool true => ['t', 'r', 'u', 'e']
  | bool false => ['f', 'a', 'l', 's', 'e']
  | number n => n.text
  | string s => stringText s.toList
  | array items => '[' :: itemsText items
  | object fields => '{' :: fieldsText fields

/-- The items of an array, up to its end. -/
def itemsText : List Json → List Char
  | [] => [']']
  | j :: js => text j ++ moreItemsText js

/-- The items after the first. -/
def moreItemsText : List Json → List Char
  | [] => [']']
  | j :: js => ',' :: (text j ++ moreItemsText js)

/-- The members of an object, up to its end. -/
def fieldsText : List (String × Json) → List Char
  | [] => ['}']
  | (k, j) :: fs => stringText k.toList ++ ':' :: (text j ++ moreFieldsText fs)

/-- The members after the first. -/
def moreFieldsText : List (String × Json) → List Char
  | [] => ['}']
  | (k, j) :: fs => ',' :: (stringText k.toList ++ ':' :: (text j ++ moreFieldsText fs))

end

/-! ### Reading -/

/-- A blank. -/
def isBlank (c : Char) : Bool := c == ' ' || c == '\t' || c == '\n' || c == '\r'

/-- The text after its blanks. -/
def skipBlanks (cs : List Char) : List Char := cs.dropWhile isBlank

/-- The value of a hexadecimal digit. -/
def hexValue (c : Char) : Option Nat :=
  if c.isDigit then some (c.toNat - 48)
  else if 'A' ≤ c ∧ c ≤ 'F' then some (c.toNat - 55)
  else if 'a' ≤ c ∧ c ≤ 'f' then some (c.toNat - 87)
  else none

/-- Four hexadecimal digits. -/
def parseHex : List Char → Option (Nat × List Char)
  | a :: b :: c :: d :: cs => do
    return (((← hexValue a) * 16 + (← hexValue b)) * 256 + (← hexValue c) * 16 + (← hexValue d), cs)
  | _ => none

/-- The second half of a pair of surrogates, after the first. -/
def parseSurrogate (high : Nat) : List Char → Option (Char × List Char)
  | '\\' :: 'u' :: cs => do
    let (low, cs) ← parseHex cs
    if 0xDC00 ≤ low ∧ low < 0xE000 then
      return (.ofNat (0x10000 + (high - 0xD800) * 0x400 + (low - 0xDC00)), cs)
    else none
  | _ => none

/-- What stands after a backslash. -/
def parseEscape : List Char → Option (Char × List Char)
  | [] => none
  | c :: cs =>
    if c = '"' ∨ c = '\\' ∨ c = '/' then some (c, cs)
    else if c = 'b' then some ('\x08', cs)
    else if c = 'f' then some ('\x0c', cs)
    else if c = 'n' then some ('\n', cs)
    else if c = 'r' then some ('\r', cs)
    else if c = 't' then some ('\t', cs)
    else if c = 'u' then do
      let (n, cs) ← parseHex cs
      if 0xD800 ≤ n ∧ n < 0xDC00 then parseSurrogate n cs
      else if 0xDC00 ≤ n ∧ n < 0xE000 then none
      else return (.ofNat n, cs)
    else none

/-- A string, after its opening quote. -/
def parseString : Nat → List Char → Option (List Char × List Char)
  | 0, _ => none
  | _, [] => none
  | fuel + 1, c :: cs =>
    if c = '"' then some ([], cs)
    else if c = '\\' then do
      let (c, cs) ← parseEscape cs
      let (s, cs) ← parseString fuel cs
      return (c :: s, cs)
    else if c.toNat < 32 then none
    else do
      let (s, cs) ← parseString fuel cs
      return (c :: s, cs)

/-- A sign, if there is one. -/
def parseSign : List Char → Bool × List Char
  | [] => (false, [])
  | c :: cs => if c = '-' then (true, cs) else (false, c :: cs)

/-- A number with its sign. -/
def signed (negative : Bool) (digits : List Char) : Int :=
  if negative then -(Nat.ofDigitChars 10 digits 0) else Nat.ofDigitChars 10 digits 0

/-- Some digits. -/
def parseDigits (cs : List Char) : Option (List Char × List Char) :=
  if cs.takeWhile Char.isDigit = [] then none
  else some (cs.takeWhile Char.isDigit, cs.dropWhile Char.isDigit)

/-- The digits of the fraction. -/
def parseFraction : List Char → Option (List Char × List Char)
  | [] => some ([], [])
  | c :: cs => if c = '.' then parseDigits cs else some ([], c :: cs)

/-- The exponent. -/
def parseExponent : List Char → Option (Option Int × List Char)
  | [] => some (none, [])
  | c :: cs =>
    if c = 'e' ∨ c = 'E' then do
      let cs := if cs.head? = some '+' then cs.tail else cs
      let (digits, cs') ← parseDigits (parseSign cs).2
      return (some (signed (parseSign cs).1 digits), cs')
    else some (none, c :: cs)

/-- A number; its integer part has no leading zero. -/
def parseNumber (cs : List Char) : Option (JsonNumber × List Char) := do
  let (digits, cs') ← parseDigits (parseSign cs).2
  if digits.head? = some '0' ∧ digits.length ≠ 1 then none
  else do
    let (fraction, cs') ← parseFraction cs'
    let (exponent, cs') ← parseExponent cs'
    if fraction = [] ∧ exponent = none then
      return (.integer (signed (parseSign cs).1 digits), cs')
    else
      return (.decimal (signed (parseSign cs).1 (digits ++ fraction))
        (exponent.getD 0 - fraction.length), cs')

/-- `null`, `true` or `false`. -/
def parseLiteral : List Char → Option (Json × List Char)
  | 'n' :: 'u' :: 'l' :: 'l' :: cs => some (null, cs)
  | 't' :: 'r' :: 'u' :: 'e' :: cs => some (bool true, cs)
  | 'f' :: 'a' :: 'l' :: 's' :: 'e' :: cs => some (bool false, cs)
  | _ => none

mutual

/-- A value. -/
def parseValue : Nat → List Char → Option (Json × List Char)
  | 0, _ => none
  | fuel + 1, cs =>
    match skipBlanks cs with
    | [] => none
    | c :: cs =>
      if c = '"' then (parseString fuel cs).map fun r => (string (.ofList r.1), r.2)
      else if c = '[' then (parseItems fuel (skipBlanks cs)).map fun r => (array r.1, r.2)
      else if c = '{' then (parseFields fuel (skipBlanks cs)).map fun r => (object r.1, r.2)
      else if c = '-' ∨ c.isDigit then (parseNumber (c :: cs)).map fun r => (number r.1, r.2)
      else parseLiteral (c :: cs)

/-- The items of an array, up to its end. -/
def parseItems : Nat → List Char → Option (List Json × List Char)
  | 0, _ => none
  | _, [] => none
  | fuel + 1, c :: cs =>
    if c = ']' then some ([], cs)
    else do
      let (j, cs) ← parseValue fuel (c :: cs)
      let (js, cs) ← parseMoreItems fuel (skipBlanks cs)
      return (j :: js, cs)

/-- The items after the first. -/
def parseMoreItems : Nat → List Char → Option (List Json × List Char)
  | 0, _ => none
  | _, [] => none
  | fuel + 1, c :: cs =>
    if c = ']' then some ([], cs)
    else if c = ',' then do
      let (j, cs) ← parseValue fuel cs
      let (js, cs) ← parseMoreItems fuel (skipBlanks cs)
      return (j :: js, cs)
    else none

/-- A member of an object. -/
def parseField : Nat → List Char → Option ((String × Json) × List Char)
  | 0, _ => none
  | _, [] => none
  | fuel + 1, c :: cs =>
    if c = '"' then do
      let (k, cs) ← parseString fuel cs
      match skipBlanks cs with
      | [] => none
      | c :: cs =>
        if c = ':' then do
          let (j, cs) ← parseValue fuel cs
          return ((.ofList k, j), cs)
        else none
    else none

/-- The members of an object, up to its end. -/
def parseFields : Nat → List Char → Option (List (String × Json) × List Char)
  | 0, _ => none
  | _, [] => none
  | fuel + 1, c :: cs =>
    if c = '}' then some ([], cs)
    else do
      let (f, cs) ← parseField fuel (c :: cs)
      let (fs, cs) ← parseMoreFields fuel (skipBlanks cs)
      return (f :: fs, cs)

/-- The members after the first. -/
def parseMoreFields : Nat → List Char → Option (List (String × Json) × List Char)
  | 0, _ => none
  | _, [] => none
  | fuel + 1, c :: cs =>
    if c = '}' then some ([], cs)
    else if c = ',' then do
      let (f, cs) ← parseField fuel (skipBlanks cs)
      let (fs, cs) ← parseMoreFields fuel (skipBlanks cs)
      return (f :: fs, cs)
    else none

end

/-- The tree of a text. -/
def parse (cs : List Char) : Option Json :=
  match parseValue (cs.length + 1) cs with
  | some (j, rest) => if skipBlanks rest = [] then some j else none
  | none => none

/-! ### What is written is read back -/

theorem hexValue_hexDigit : ∀ n < 16, hexValue (hexDigit n) = some n := by decide

/-- A character is read back, and the string goes on. -/
theorem parseString_escapeChar (c : Char) (cs : List Char) (fuel : Nat) :
    parseString (fuel + 1) (escapeChar c ++ cs) =
      (parseString fuel cs).map fun r => (c :: r.1, r.2) := by
  have read : ∀ (d : Char) (ds : List Char), parseEscape (d :: ds) = some (c, cs) →
      parseString (fuel + 1) ('\\' :: d :: ds) =
        (parseString fuel cs).map fun r => (c :: r.1, r.2) := by
    intro d ds h
    rw [parseString, if_neg (by decide), if_pos rfl, h]
    show (parseString fuel cs).bind (fun r => some (c :: r.1, r.2)) = _
    cases parseString fuel cs <;> rfl
  rw [escapeChar]
  split_ifs with hquote hslash hb hf hn hr ht hcontrol
  · subst hquote
    exact read _ _ rfl
  · subst hslash
    exact read _ _ rfl
  · subst hb
    exact read _ _ rfl
  · subst hf
    exact read _ _ rfl
  · subst hn
    exact read _ _ rfl
  · subst hr
    exact read _ _ rfl
  · subst ht
    exact read _ _ rfl
  · refine read _ _ ?_
    have hhex : parseHex ('0' :: '0' :: hexDigit (c.toNat / 16) :: hexDigit (c.toNat % 16) :: cs) =
        some (c.toNat, cs) := by
      have hzero : hexValue '0' = some 0 := rfl
      have hsum : (0 * 16 + 0) * 256 + c.toNat / 16 * 16 + c.toNat % 16 = c.toNat := by omega
      rw [parseHex, hzero, hexValue_hexDigit _ (by omega), hexValue_hexDigit _ (by omega)]
      show some ((0 * 16 + 0) * 256 + c.toNat / 16 * 16 + c.toNat % 16, cs) = _
      rw [hsum]
    show (parseHex ('0' :: '0' :: hexDigit (c.toNat / 16) :: hexDigit (c.toNat % 16) :: cs)).bind
      _ = _
    rw [hhex]
    show (if 0xD800 ≤ c.toNat ∧ c.toNat < 0xDC00 then _ else if _ then _ else _) = _
    rw [if_neg (by omega), if_neg (by omega)]
    show some (Char.ofNat c.toNat, cs) = _
    rw [Char.ofNat_toNat]
  · rw [List.cons_append, List.nil_append, parseString, if_neg hquote, if_neg hslash,
      if_neg hcontrol]
    cases parseString fuel cs <;> rfl

theorem parseString_stringText (s r : List Char) {fuel : Nat} (h : s.length < fuel) :
    parseString fuel (s.flatMap escapeChar ++ '"' :: r) = some (s, r) := by
  induction s generalizing fuel with
  | nil =>
    obtain ⟨fuel, rfl⟩ := Nat.exists_eq_succ_of_ne_zero (Nat.ne_of_gt h)
    rw [List.flatMap_nil, List.nil_append, parseString, if_pos rfl]
  | cons c s ih =>
    obtain ⟨fuel, rfl⟩ := Nat.exists_eq_succ_of_ne_zero (Nat.ne_of_gt (Nat.zero_lt_of_lt h))
    rw [List.flatMap_cons, List.append_assoc, parseString_escapeChar,
      ih (Nat.lt_of_succ_lt_succ h)]
    rfl

/-- A text that does not go on with the number before it. -/
def Ends (r : List Char) : Prop :=
  ∀ c ∈ r.head?, c.isDigit = false ∧ c ≠ '.' ∧ c ≠ 'e' ∧ c ≠ 'E'

theorem ends_nil : Ends [] := by
  intro c hc
  cases hc

theorem ends_cons {c : Char} {cs : List Char}
    (h : c.isDigit = false ∧ c ≠ '.' ∧ c ≠ 'e' ∧ c ≠ 'E') : Ends (c :: cs) := by
  intro d hd
  cases hd
  exact h

theorem isDigit_toDigits {n : Nat} : ∀ c ∈ Nat.toDigits 10 n, c.isDigit = true :=
  fun _ hc => Nat.isDigit_of_mem_toDigits (by decide) (by decide) hc

/-- Digits are read up to what is none. -/
theorem parseDigits_append {ds r : List Char} (hne : ds ≠ []) (hds : ∀ c ∈ ds, c.isDigit = true)
    (h : ∀ c ∈ r.head?, c.isDigit = false) : parseDigits (ds ++ r) = some (ds, r) := by
  have hnone : r.takeWhile Char.isDigit = [] ∧ r.dropWhile Char.isDigit = r := by
    cases r with
    | nil => exact ⟨rfl, rfl⟩
    | cons c r =>
      have hc := h c rfl
      exact ⟨List.takeWhile_cons_of_neg (by rw [hc]; decide),
        List.dropWhile_cons_of_neg (by rw [hc]; decide)⟩
  have htake : (ds ++ r).takeWhile Char.isDigit = ds := by
    rw [List.takeWhile_append_of_pos hds, hnone.1, List.append_nil]
  have hdrop : (ds ++ r).dropWhile Char.isDigit = r := by
    rw [List.dropWhile_append_of_pos hds, hnone.2]
  rw [parseDigits, htake, hdrop, if_neg hne]

theorem parseDigits_toDigits (n : Nat) {r : List Char} (h : ∀ c ∈ r.head?, c.isDigit = false) :
    parseDigits (Nat.toDigits 10 n ++ r) = some (Nat.toDigits 10 n, r) :=
  parseDigits_append Nat.toDigits_ne_nil isDigit_toDigits h

/-- Only zero begins with a zero. -/
theorem length_toDigits_of_zero {n : Nat} (h : (Nat.toDigits 10 n).head? = some '0') :
    (Nat.toDigits 10 n).length = 1 := by
  induction n using Nat.strong_induction_on with
  | _ n ih =>
    by_cases hlt : n < 10
    · rw [Nat.toDigits_of_lt_base hlt]
      rfl
    · exfalso
      have hsplit := Nat.toDigits_of_base_le (b := 10) (by decide) (Nat.le_of_not_lt hlt)
      rw [hsplit, List.head?_append_of_ne_nil _ Nat.toDigits_ne_nil] at h
      have hone := ih (n / 10) (by omega) h
      -- the digits of `n / 10` would be a single zero
      obtain ⟨c, hc⟩ := List.length_eq_one_iff.1 hone
      rw [hc] at h
      have hvalue : Nat.ofDigitChars 10 (Nat.toDigits 10 (n / 10)) 0 = n / 10 :=
        Nat.ofDigitChars_ten_toDigits
      rw [hc, Option.some.inj h] at hvalue
      have hzero : Nat.ofDigitChars 10 ['0'] 0 = 0 := rfl
      omega

/-- An integer is its sign and its digits. -/
theorem parseSign_intText (i : Int) (r : List Char) :
    parseSign (intText i ++ r) = (decide (i < 0), Nat.toDigits 10 i.natAbs ++ r) := by
  cases i with
  | ofNat n =>
    cases hd : Nat.toDigits 10 n with
    | nil => exact absurd hd Nat.toDigits_ne_nil
    | cons c cs =>
      have hc : c ≠ '-' := by
        rintro rfl
        have hdigit : '-'.isDigit = true := isDigit_toDigits (n := n) '-' (hd ▸ List.mem_cons_self)
        cases hdigit
      show parseSign (Nat.toDigits 10 n ++ r) = (_, Nat.toDigits 10 n ++ r)
      rw [hd, List.cons_append, parseSign, if_neg hc]
      rfl
  | negSucc n =>
    show parseSign ('-' :: (Nat.toDigits 10 (n + 1) ++ r)) = _
    rw [parseSign, if_pos rfl, decide_eq_true (Int.negSucc_lt_zero n)]
    rfl

theorem signed_eq {i : Int} {digits : List Char}
    (h : Nat.ofDigitChars 10 digits 0 = i.natAbs) : signed (decide (i < 0)) digits = i := by
  rw [signed, h]
  by_cases hneg : i < 0
  · rw [if_pos (decide_eq_true hneg)]
    omega
  · rw [if_neg (by simpa using hneg)]
    omega

theorem signed_natAbs (i : Int) : signed (decide (i < 0)) (Nat.toDigits 10 i.natAbs) = i :=
  signed_eq Nat.ofDigitChars_ten_toDigits

theorem parseFraction_ends {r : List Char} (h : ∀ c ∈ r.head?, c ≠ '.') :
    parseFraction r = some ([], r) := by
  cases r with
  | nil => rfl
  | cons c r => rw [parseFraction, if_neg (h c rfl)]

theorem parseExponent_ends {r : List Char} (h : Ends r) : parseExponent r = some (none, r) := by
  cases r with
  | nil => rfl
  | cons c r =>
    obtain ⟨-, -, he, hE⟩ := h c rfl
    rw [parseExponent, if_neg (by simp [he, hE])]

/-- A number is read back. -/
theorem parseNumber_text (n : JsonNumber) {r : List Char} (h : Ends r) :
    parseNumber (n.text ++ r) = some (n, r) := by
  have lead : ∀ i : Int, ¬ ((Nat.toDigits 10 i.natAbs).head? = some '0' ∧
      (Nat.toDigits 10 i.natAbs).length ≠ 1) :=
    fun i hi => hi.2 (length_toDigits_of_zero hi.1)
  cases n with
  | integer i =>
    show parseNumber (intText i ++ r) = _
    rw [parseNumber, parseSign_intText]
    dsimp only
    rw [parseDigits_toDigits _ fun c hc => (h c hc).1]
    show (if _ then none else (parseFraction r).bind _) = _
    rw [if_neg (lead i), parseFraction_ends fun c hc => (h c hc).2.1]
    show (parseExponent r).bind _ = _
    rw [parseExponent_ends h]
    show some (JsonNumber.integer (signed (decide (i < 0)) (Nat.toDigits 10 i.natAbs)), r) = _
    rw [signed_natAbs]
  | decimal m e =>
    -- the exponent is written without a plus, and read with or without one
    have hexp : parseExponent ('e' :: (intText e ++ r)) = some (some e, r) := by
      have hplus : (if (intText e ++ r).head? = some '+' then (intText e ++ r).tail
          else intText e ++ r) = intText e ++ r := by
        refine if_neg ?_
        have hne : intText e ≠ [] := by
          cases e with
          | ofNat n => exact Nat.toDigits_ne_nil
          | negSucc n => exact List.cons_ne_nil _ _
        rw [List.head?_append_of_ne_nil _ hne]
        cases e with
        | ofNat n =>
          intro hhead
          have hdigit := isDigit_toDigits (n := n) '+' (List.mem_of_head? hhead)
          cases hdigit
        | negSucc n => exact fun hhead => absurd (Option.some.inj hhead) (by decide)
      rw [parseExponent, if_pos (.inl rfl)]
      dsimp only
      rw [hplus, parseSign_intText]
      dsimp only
      rw [parseDigits_toDigits _ fun c hc => (h c hc).1]
      show some (some (signed (decide (e < 0)) (Nat.toDigits 10 e.natAbs)), r) = _
      rw [signed_natAbs]
    show parseNumber (intText m ++ 'e' :: intText e ++ r) = _
    rw [List.append_assoc, List.cons_append, parseNumber, parseSign_intText]
    dsimp only
    rw [parseDigits_toDigits _ fun c hc => by cases hc; rfl]
    show (if _ then none else (parseFraction ('e' :: (intText e ++ r))).bind _) = _
    rw [if_neg (lead m), parseFraction_ends fun c hc => by cases hc; decide]
    show (parseExponent ('e' :: (intText e ++ r))).bind _ = _
    rw [hexp]
    show some (JsonNumber.decimal (signed (decide (m < 0)) (Nat.toDigits 10 m.natAbs ++ []))
      (e - (([] : List Char).length : Int)), r) = _
    rw [List.append_nil, signed_natAbs]
    simp

/-- A tree begins with a character that is no blank and closes nothing. -/
theorem text_cons (j : Json) :
    ∃ c cs, j.text = c :: cs ∧ isBlank c = false ∧ c ≠ ']' ∧ c ≠ '}' := by
  have digits : ∀ (n : Nat) (r : List Char), ∃ c cs, Nat.toDigits 10 n ++ r = c :: cs ∧
      isBlank c = false ∧ c ≠ ']' ∧ c ≠ '}' := by
    intro n r
    cases hd : Nat.toDigits 10 n with
    | nil => exact absurd hd Nat.toDigits_ne_nil
    | cons c cs =>
      have hdigit := isDigit_toDigits (n := n) c (hd ▸ List.mem_cons_self)
      refine ⟨c, cs ++ r, rfl, Bool.of_not_eq_true fun hblank => ?_, ?_, ?_⟩
      · simp only [isBlank, Bool.or_eq_true, beq_iff_eq] at hblank
        rcases hblank with ((rfl | rfl) | rfl) | rfl <;> cases hdigit
      · rintro rfl
        cases hdigit
      · rintro rfl
        cases hdigit
  have ints : ∀ (i : Int) (r : List Char), ∃ c cs, intText i ++ r = c :: cs ∧
      isBlank c = false ∧ c ≠ ']' ∧ c ≠ '}' := by
    intro i r
    cases i with
    | ofNat n => exact digits n r
    | negSucc n => exact ⟨'-', _, rfl, rfl, by decide, by decide⟩
  cases j with
  | null => exact ⟨'n', _, rfl, rfl, by decide, by decide⟩
  | bool b => cases b <;> exact ⟨_, _, rfl, rfl, by decide, by decide⟩
  | number n =>
    cases n with
    | integer i =>
      obtain ⟨c, cs, he, hc⟩ := ints i []
      exact ⟨c, cs, by rw [← he, List.append_nil]; rfl, hc⟩
    | decimal m e => exact ints m ('e' :: intText e)
  | string s => exact ⟨'"', _, rfl, rfl, by decide, by decide⟩
  | array items => exact ⟨'[', _, rfl, rfl, by decide, by decide⟩
  | object fields => exact ⟨'{', _, rfl, rfl, by decide, by decide⟩

theorem skipBlanks_cons {c : Char} (h : isBlank c = false) (cs : List Char) :
    skipBlanks (c :: cs) = c :: cs :=
  List.dropWhile_cons_of_neg (by rw [h]; decide)

theorem skipBlanks_text (j : Json) (r : List Char) : skipBlanks (j.text ++ r) = j.text ++ r := by
  obtain ⟨c, cs, he, hc, -⟩ := j.text_cons
  rw [he, List.cons_append, skipBlanks_cons hc]

/-- A text that ends the number before it and begins with no blank. -/
def Continues (cs : List Char) : Prop :=
  ∃ c cs', cs = c :: cs' ∧ isBlank c = false ∧ c.isDigit = false ∧ c ≠ '.' ∧ c ≠ 'e' ∧ c ≠ 'E'

namespace Continues

variable {cs : List Char}

theorem pos (h : Continues cs) : 0 < cs.length := by
  obtain ⟨c, cs', rfl, -⟩ := h
  exact Nat.succ_pos _

theorem ends (h : Continues cs) (r : List Char) : Ends (cs ++ r) := by
  obtain ⟨c, cs', rfl, -, hends⟩ := h
  exact ends_cons hends

theorem skipBlanks (h : Continues cs) (r : List Char) : Json.skipBlanks (cs ++ r) = cs ++ r := by
  obtain ⟨c, cs', rfl, hblank, -⟩ := h
  rw [List.cons_append, skipBlanks_cons hblank]

end Continues

/-- The items of an array go on with a comma or end. -/
theorem continues_moreItemsText (js : List Json) : Continues (moreItemsText js) := by
  cases js with
  | nil => exact ⟨']', _, rfl, rfl, rfl, by decide, by decide, by decide⟩
  | cons j js => exact ⟨',', _, rfl, rfl, rfl, by decide, by decide, by decide⟩

theorem continues_moreFieldsText (fs : List (String × Json)) : Continues (moreFieldsText fs) := by
  cases fs with
  | nil => exact ⟨'}', _, rfl, rfl, rfl, by decide, by decide, by decide⟩
  | cons f fs => exact ⟨',', _, rfl, rfl, rfl, by decide, by decide, by decide⟩

/-- The tree is read back, whatever stands after it. -/
def ReadsBack (j : Json) : Prop :=
  ∀ fuel r, j.text.length < fuel → Ends r → parseValue fuel (j.text ++ r) = some (j, r)

theorem readsBack_number (n : JsonNumber) : ReadsBack (number n) := by
  intro fuel r hlen hr
  obtain ⟨fuel, rfl⟩ := Nat.exists_eq_succ_of_ne_zero (Nat.ne_of_gt (Nat.zero_lt_of_lt hlen))
  have hnumber := parseNumber_text n hr
  rw [parseValue, skipBlanks_text]
  obtain ⟨c, cs, he, hc⟩ : ∃ c cs, n.text = c :: cs ∧ (c = '-' ∨ c.isDigit = true) := by
    have ints : ∀ (i : Int), ∃ c cs, intText i = c :: cs ∧ (c = '-' ∨ c.isDigit = true) := by
      intro i
      cases i with
      | ofNat k =>
        cases hd : Nat.toDigits 10 k with
        | nil => exact absurd hd Nat.toDigits_ne_nil
        | cons c cs =>
          exact ⟨c, cs, hd, .inr (isDigit_toDigits (n := k) c (hd ▸ List.mem_cons_self))⟩
      | negSucc k => exact ⟨'-', _, rfl, .inl rfl⟩
    cases n with
    | integer i => exact ints i
    | decimal m e =>
      obtain ⟨c, cs, he, hc⟩ := ints m
      exact ⟨c, cs ++ 'e' :: intText e, by rw [JsonNumber.text, he]; rfl, hc⟩
  have hother : ∀ d : Char, d ≠ '-' → d.isDigit = false → c ≠ d := by
    rintro d hminus hdigit rfl
    rcases hc with rfl | hd
    · exact hminus rfl
    · rw [hdigit] at hd
      cases hd
  have htext : (number n).text = c :: cs := he
  rw [he, List.cons_append] at hnumber
  rw [htext, List.cons_append]
  dsimp only
  rw [if_neg (hother '"' (by decide) rfl), if_neg (hother '[' (by decide) rfl),
    if_neg (hother '{' (by decide) rfl), if_pos hc, hnumber]
  rfl

theorem length_le_escaped (s : List Char) : s.length ≤ (s.flatMap escapeChar).length := by
  have one : ∀ c, 1 ≤ (escapeChar c).length := by
    intro c
    rw [escapeChar]
    split_ifs <;> exact Nat.succ_le_succ (Nat.zero_le _)
  induction s with
  | nil => exact Nat.zero_le _
  | cons c s ih =>
    rw [List.flatMap_cons, List.length_append, List.length_cons]
    have := one c
    omega

/-- A string is read back after its opening quote. -/
theorem parseString_text (s : String) (r : List Char) (fuel : Nat)
    (h : (stringText s.toList).length ≤ fuel + 1) :
    parseString fuel (s.toList.flatMap escapeChar ++ '"' :: r) = some (s.toList, r) := by
  refine parseString_stringText s.toList r ?_
  have hle := length_le_escaped s.toList
  rw [stringText, List.length_cons, List.length_append, List.length_singleton] at h
  omega

theorem readsBack_string (s : String) : ReadsBack (string s) := by
  intro fuel r hlen hr
  obtain ⟨fuel, rfl⟩ := Nat.exists_eq_succ_of_ne_zero (Nat.ne_of_gt (Nat.zero_lt_of_lt hlen))
  have hstring := parseString_text s r fuel (Nat.le_of_lt hlen)
  rw [parseValue, skipBlanks_text]
  show (if '"' = '"' then (parseString fuel (s.toList.flatMap escapeChar ++ ['"'] ++ r)).map _
    else _) = _
  rw [if_pos rfl, List.append_assoc, List.singleton_append, hstring]
  show some (string (.ofList s.toList), r) = _
  rw [String.ofList_toList]

/-- Items that are read back one by one are read back in an array. -/
theorem parseMoreItems_text {js : List Json} (hjs : ∀ j ∈ js, ReadsBack j) {fuel : Nat}
    (r : List Char) (h : (moreItemsText js).length ≤ fuel) :
    parseMoreItems fuel (moreItemsText js ++ r) = some (js, r) := by
  induction js generalizing fuel with
  | nil =>
    obtain ⟨fuel, rfl⟩ := Nat.exists_eq_succ_of_ne_zero (Nat.ne_of_gt h)
    show parseMoreItems (fuel + 1) (']' :: r) = _
    rw [parseMoreItems, if_pos rfl]
  | cons j js ih =>
    obtain ⟨hj, hjs⟩ := List.forall_mem_cons.1 hjs
    rw [moreItemsText, List.length_cons, List.length_append] at h
    obtain ⟨fuel, rfl⟩ := Nat.exists_eq_succ_of_ne_zero (Nat.ne_of_gt (Nat.zero_lt_of_lt h))
    have hmore := continues_moreItemsText js
    have hpos := hmore.pos
    have hvalue := hj fuel (moreItemsText js ++ r) (by omega) (hmore.ends r)
    show parseMoreItems (fuel + 1) (',' :: (j.text ++ moreItemsText js ++ r)) = _
    rw [parseMoreItems, if_neg (by decide), if_pos rfl, List.append_assoc, hvalue]
    show (parseMoreItems fuel (skipBlanks (moreItemsText js ++ r))).bind _ = _
    rw [hmore.skipBlanks, ih hjs (by omega)]
    rfl

theorem readsBack_array {items : List Json} (h : ∀ j ∈ items, ReadsBack j) :
    ReadsBack (array items) := by
  intro fuel r hlen hr
  obtain ⟨fuel, rfl⟩ := Nat.exists_eq_succ_of_ne_zero (Nat.ne_of_gt (Nat.zero_lt_of_lt hlen))
  rw [parseValue, skipBlanks_text]
  show (if '[' = '"' then _ else if '[' = '[' then
    (parseItems fuel (skipBlanks (itemsText items ++ r))).map _ else _) = _
  rw [if_neg (by decide), if_pos rfl]
  suffices parseItems fuel (skipBlanks (itemsText items ++ r)) = some (items, r) by
    rw [this]
    rfl
  rw [text, List.length_cons] at hlen
  cases items with
  | nil =>
    obtain ⟨fuel, rfl⟩ := Nat.exists_eq_succ_of_ne_zero
      (Nat.ne_of_gt (Nat.zero_lt_of_lt (Nat.lt_of_succ_lt_succ hlen)))
    rfl
  | cons j js =>
    obtain ⟨hj, hjs⟩ := List.forall_mem_cons.1 h
    rw [itemsText, List.length_append] at hlen
    obtain ⟨fuel, rfl⟩ := Nat.exists_eq_succ_of_ne_zero
      (Nat.ne_of_gt (Nat.zero_lt_of_lt (Nat.lt_of_succ_lt_succ hlen)))
    have hmore := continues_moreItemsText js
    have hpos := hmore.pos
    have hvalue := hj fuel (moreItemsText js ++ r) (by omega) (hmore.ends r)
    obtain ⟨d, ds, hd, -, hclose, -⟩ := j.text_cons
    rw [itemsText, List.append_assoc, skipBlanks_text, hd, List.cons_append, parseItems,
      if_neg hclose, ← List.cons_append, ← hd, hvalue]
    show (parseMoreItems fuel (skipBlanks (moreItemsText js ++ r))).bind _ = _
    rw [hmore.skipBlanks, parseMoreItems_text hjs r (by omega)]
    rfl

/-- A member is read back. -/
theorem parseField_text {k : String} {j : Json} (hj : ReadsBack j) (fuel : Nat) {r : List Char}
    (h : (stringText k.toList).length + j.text.length < fuel) (hr : Ends r) :
    parseField fuel (stringText k.toList ++ ':' :: (j.text ++ r)) = some ((k, j), r) := by
  obtain ⟨fuel, rfl⟩ := Nat.exists_eq_succ_of_ne_zero (Nat.ne_of_gt (Nat.zero_lt_of_lt h))
  have hkey := parseString_text k (':' :: (j.text ++ r)) fuel (by omega)
  have hpos : 0 < (stringText k.toList).length := Nat.succ_pos _
  have hvalue := hj fuel r (by omega) hr
  show parseField (fuel + 1)
    ('"' :: (k.toList.flatMap escapeChar ++ ['"'] ++ ':' :: (j.text ++ r))) = _
  rw [parseField, if_pos rfl, List.append_assoc, List.singleton_append, hkey]
  rw [Option.bind_eq_bind, Option.bind_some]
  dsimp only
  rw [skipBlanks_cons rfl]
  dsimp only
  rw [if_pos rfl, hvalue]
  show some ((String.ofList k.toList, j), r) = _
  rw [String.ofList_toList]

/-- The members of an object begin with the quote of a key. -/
theorem skipBlanks_stringText (s cs : List Char) :
    skipBlanks (stringText s ++ cs) = stringText s ++ cs :=
  skipBlanks_cons rfl _

theorem parseMoreFields_text {fs : List (String × Json)} (hfs : ∀ f ∈ fs, ReadsBack f.2)
    {fuel : Nat} (r : List Char) (h : (moreFieldsText fs).length ≤ fuel) :
    parseMoreFields fuel (moreFieldsText fs ++ r) = some (fs, r) := by
  induction fs generalizing fuel with
  | nil =>
    obtain ⟨fuel, rfl⟩ := Nat.exists_eq_succ_of_ne_zero (Nat.ne_of_gt h)
    show parseMoreFields (fuel + 1) ('}' :: r) = _
    rw [parseMoreFields, if_pos rfl]
  | cons f fs ih =>
    obtain ⟨k, j⟩ := f
    obtain ⟨hj, hfs⟩ := List.forall_mem_cons.1 hfs
    rw [moreFieldsText, List.length_cons, List.length_append, List.length_cons,
      List.length_append] at h
    obtain ⟨fuel, rfl⟩ := Nat.exists_eq_succ_of_ne_zero (Nat.ne_of_gt (Nat.zero_lt_of_lt h))
    have hmore := continues_moreFieldsText fs
    have hpos := hmore.pos
    have hfield := parseField_text (k := k) (j := j) hj fuel (by omega) (hmore.ends r)
    show parseMoreFields (fuel + 1)
      (',' :: (stringText k.toList ++ ':' :: (j.text ++ moreFieldsText fs) ++ r)) = _
    rw [parseMoreFields, if_neg (by decide), if_pos rfl, List.append_assoc, List.cons_append,
      List.append_assoc, skipBlanks_stringText, hfield]
    show (parseMoreFields fuel (skipBlanks (moreFieldsText fs ++ r))).bind _ = _
    rw [hmore.skipBlanks, ih hfs (by omega)]
    rfl

theorem readsBack_object {fields : List (String × Json)} (h : ∀ f ∈ fields, ReadsBack f.2) :
    ReadsBack (object fields) := by
  intro fuel r hlen hr
  obtain ⟨fuel, rfl⟩ := Nat.exists_eq_succ_of_ne_zero (Nat.ne_of_gt (Nat.zero_lt_of_lt hlen))
  rw [parseValue, skipBlanks_text]
  show (if '{' = '"' then _ else if '{' = '[' then _ else if '{' = '{' then
    (parseFields fuel (skipBlanks (fieldsText fields ++ r))).map _ else _) = _
  rw [if_neg (by decide), if_neg (by decide), if_pos rfl]
  suffices parseFields fuel (skipBlanks (fieldsText fields ++ r)) = some (fields, r) by
    rw [this]
    rfl
  rw [text, List.length_cons] at hlen
  cases fields with
  | nil =>
    obtain ⟨fuel, rfl⟩ := Nat.exists_eq_succ_of_ne_zero
      (Nat.ne_of_gt (Nat.zero_lt_of_lt (Nat.lt_of_succ_lt_succ hlen)))
    rfl
  | cons f fs =>
    obtain ⟨k, j⟩ := f
    obtain ⟨hj, hfs⟩ := List.forall_mem_cons.1 h
    rw [fieldsText, List.length_append, List.length_cons, List.length_append] at hlen
    obtain ⟨fuel, rfl⟩ := Nat.exists_eq_succ_of_ne_zero
      (Nat.ne_of_gt (Nat.zero_lt_of_lt (Nat.lt_of_succ_lt_succ hlen)))
    have hmore := continues_moreFieldsText fs
    have hpos := hmore.pos
    have hfield := parseField_text (k := k) (j := j) hj fuel (by omega) (hmore.ends r)
    have hquote : stringText k.toList ++ ':' :: (j.text ++ (moreFieldsText fs ++ r)) =
        '"' :: (k.toList.flatMap escapeChar ++ ['"'] ++
          ':' :: (j.text ++ (moreFieldsText fs ++ r))) := rfl
    rw [fieldsText, List.append_assoc, List.cons_append, List.append_assoc, skipBlanks_stringText,
      hquote, parseFields, if_neg (by decide), ← hquote, hfield]
    show (parseMoreFields fuel (skipBlanks (moreFieldsText fs ++ r))).bind _ = _
    rw [hmore.skipBlanks, parseMoreFields_text hfs r (by omega)]
    rfl

theorem readsBack_literal {j : Json} {c : Char} {cs : List Char} (htext : j.text = c :: cs)
    (hblank : isBlank c = false) (hc : c ≠ '"' ∧ c ≠ '[' ∧ c ≠ '{' ∧ c ≠ '-' ∧ c.isDigit = false)
    (hread : ∀ r, parseLiteral (c :: (cs ++ r)) = some (j, r)) : ReadsBack j := by
  intro fuel r hlen hr
  obtain ⟨fuel, rfl⟩ := Nat.exists_eq_succ_of_ne_zero (Nat.ne_of_gt (Nat.zero_lt_of_lt hlen))
  obtain ⟨hquote, hbracket, hbrace, hminus, hdigit⟩ := hc
  rw [parseValue, htext, List.cons_append, skipBlanks_cons hblank]
  dsimp only
  rw [if_neg hquote, if_neg hbracket, if_neg hbrace, if_neg (by simp [hminus, hdigit])]
  exact hread r

/-- **Every tree is read back.** -/
theorem readsBack (j : Json) : ReadsBack j := by
  induction j using Json.ind with
  | null => exact readsBack_literal rfl rfl (by decide) fun _ => rfl
  | bool b => cases b <;> exact readsBack_literal rfl rfl (by decide) fun _ => rfl
  | number n => exact readsBack_number n
  | string s => exact readsBack_string s
  | array items ih => exact readsBack_array ih
  | object fields ih => exact readsBack_object ih

/-- **What is written is read back.** -/
theorem parse_text (j : Json) : parse j.text = some j := by
  have hread := readsBack j (j.text.length + 1) [] (Nat.lt_succ_self _) ends_nil
  rw [List.append_nil] at hread
  rw [parse, hread]
  rfl

end Json

end VirtualCatalog
