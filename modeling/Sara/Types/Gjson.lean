import Sara.Lib.JsonString
import Sara.Types.Defines

/-! # The path reader of gjson

`Get` of the vendored package, for a path that is a plain name: no dot, wildcard
or escape in it, and not a number, so that an array holds nothing under it. The
scanner checks no more of the text than it needs to walk over it. On a text of
the JSON grammar it answers with the first member of that name.
-/

namespace Sara.Gjson

open Lib.Json

set_option autoImplicit false

section Scanner

/-- How many backslashes stand right before the next byte of a string, of which
`rev` has been read, the last byte first. -/
def slashes (rev : Bytes) : Nat := (rev.takeWhile (· = backslash)).length

def closes (rev : Bytes) (b : UInt8) : Bool := b = quote && slashes rev % 2 = 0

def parseString (rev : Bytes) : Bytes → Option (Bytes × Bytes)
  | [] => none
  | b :: rest => if closes rev b then some (rev.reverse, rest) else parseString (b :: rev) rest

def prepend (t : Bytes) (r : Bytes × Bytes) : Bytes × Bytes := (t ++ r.1, r.2)

/-- The rest of an array or object that is open to the given depth. Inside a
string, the bytes read of it are at hand. -/
def parseSquash : Nat → Option Bytes → Bytes → Bytes × Bytes
  | _, _, [] => ([], [])
  | depth, some rev, b :: rest =>
    if closes rev b then prepend [b] (parseSquash depth none rest)
    else prepend [b] (parseSquash depth (some (b :: rev)) rest)
  | depth, none, b :: rest =>
    if b = quote then prepend [b] (parseSquash depth (some []) rest)
    else if b = openBrace || b = openBracket then prepend [b] (parseSquash (depth + 1) none rest)
    else if b = closeBrace || b = closeBracket then
      if depth = 1 then ([b], rest) else prepend [b] (parseSquash (depth - 1) none rest)
    else prepend [b] (parseSquash depth none rest)

def endsNumber (b : UInt8) : Bool :=
  b ≤ 32 || b = Lib.Json.comma || b = closeBracket || b = closeBrace

def parseNumber (json : Bytes) : Bytes × Bytes :=
  (json.takeWhile (!endsNumber ·), json.dropWhile (!endsNumber ·))

def isLetter (b : UInt8) : Bool := 97 ≤ b && b ≤ 122

def parseLiteral (json : Bytes) : Bytes × Bytes := (json.takeWhile isLetter, json.dropWhile isLetter)

/-- The small letters only: the source lists their range twice and leaves out the
capital ones. -/
def hexDigit (b : UInt8) : Option Nat :=
  if isDigit b then some (b.toNat - 48) else if 97 ≤ b && b ≤ 102 then some (b.toNat - 87) else none

def escaped (e : UInt8) : Option UInt8 :=
  if e = backslash || e = 47 || e = quote then some e
  else if e = 98 then some 8
  else if e = 102 then some 12
  else if e = 110 then some 10
  else if e = 114 then some 13
  else if e = 116 then some 9
  else none

def unescapeFrom : Bytes → Option Bytes
  | [] => some []
  | b :: json =>
    if b < 32 then none
    else if b = backslash then
      match json with
      | [] => none
      | e :: json =>
        if e = letterU then
          match json with
          | h₁ :: h₂ :: h₃ :: h₄ :: json =>
            ([h₁, h₂, h₃, h₄].mapM hexDigit).bind fun digits =>
              (unescapeFrom json).map (encodeRune (digits.foldl (fun n d => 16 * n + d) 0) ++ ·)
          | _ => none
        else (escaped e).bind fun c => (unescapeFrom json).map (c :: ·)
    else (unescapeFrom json).map (b :: ·)

/-- The source gives up with the empty string. -/
def unescape (json : Bytes) : Bytes := (unescapeFrom json).getD []

def keyName (key : Bytes) : Bytes := if key.contains backslash then unescape key else key

def nextKey : Bytes → Option (Bytes × Bytes)
  | [] => none
  | b :: rest =>
    if b = quote then parseString [] rest else if b = closeBrace then none else nextKey rest

/-- Any byte that begins no value is passed over, a closing brace too. -/
def nextValue : Bytes → Option (Bytes × Bytes)
  | [] => none
  | b :: rest =>
    if b = quote then (parseString [] rest).map fun r => (b :: (r.1 ++ [quote]), r.2)
    else if b = openBrace || b = openBracket then some (prepend [b] (parseSquash 1 none rest))
    else if b = minus || isDigit b then some (prepend [b] (parseNumber rest))
    else if b = 116 || b = 102 || b = 110 then some (prepend [b] (parseLiteral rest))
    else nextValue rest

/-- A round reads a key and a value, so there are no more rounds than bytes. -/
def parseObject (path : Bytes) : Nat → Bytes → Option Bytes
  | 0, _ => none
  | n + 1, json =>
    (nextKey json).bind fun key =>
      (nextValue key.2).bind fun val =>
        if keyName key.1 = path then some val.1 else parseObject path n val.2

def get (json path : Bytes) : Option Bytes :=
  match json.dropWhile fun b => b ≠ openBrace && b ≠ openBracket with
  | [] => none
  | b :: rest => if b = openBrace then parseObject path rest.length rest else none

end Scanner

section Strings

/-- Reading `t` after `rev` meets no closing quote, and a quote would close after it. -/
def Inside : Bytes → Bytes → Prop
  | rev, [] => slashes rev % 2 = 0
  | rev, b :: t => closes rev b = false ∧ Inside (b :: rev) t

theorem slashes_backslash (rev : Bytes) : slashes (backslash :: rev) = slashes rev + 1 := by
  simp [slashes]

theorem slashes_of_ne {b : UInt8} (h : b ≠ backslash) (rev : Bytes) : slashes (b :: rev) = 0 := by
  simp [slashes, h]

theorem closes_of_ne {b : UInt8} (h : b ≠ quote) (rev : Bytes) : closes rev b = false := by
  simp [closes, h]

theorem ne_of_isHex {b : UInt8} (h : isHex b = true) : b ≠ quote ∧ b ≠ backslash := by
  constructor <;> rintro rfl <;> cases h

theorem inside_of_body {t : Bytes} (h : Body t) {rev : Bytes} (hRev : slashes rev % 2 = 0) :
    Inside rev t := by
  induction h generalizing rev with
  | nil => exact hRev
  | @plain b t hPlain _ ih =>
    have hb : (32 ≤ b ∧ b ≠ quote) ∧ b ≠ backslash := by simpa [isPlain] using hPlain
    refine ⟨closes_of_ne hb.1.2 rev, ih ?_⟩
    rw [slashes_of_ne hb.2]
  | @escape e t _ _ ih =>
    have hOdd : slashes (backslash :: rev) % 2 = 1 := by
      rw [slashes_backslash]
      omega
    refine ⟨closes_of_ne (by decide) rev, by simp [closes, hOdd], ih ?_⟩
    by_cases he : e = backslash
    · rw [he, slashes_backslash, slashes_backslash]
      omega
    · rw [slashes_of_ne he]
  | @unicode h₁ h₂ h₃ h₄ t hHex _ ih =>
    simp only [List.all_cons, List.all_nil, Bool.and_true, Bool.and_eq_true] at hHex
    obtain ⟨hHex₁, hHex₂, hHex₃, hHex₄⟩ := hHex
    refine ⟨closes_of_ne (by decide) _, closes_of_ne (by decide) _, closes_of_ne (ne_of_isHex hHex₁).1 _,
      closes_of_ne (ne_of_isHex hHex₂).1 _, closes_of_ne (ne_of_isHex hHex₃).1 _,
      closes_of_ne (ne_of_isHex hHex₄).1 _, ih ?_⟩
    rw [slashes_of_ne (ne_of_isHex hHex₄).2]

theorem parseString_of_inside {rev t : Bytes} (h : Inside rev t) (rest : Bytes) :
    parseString rev (t ++ quote :: rest) = some (rev.reverse ++ t, rest) := by
  induction t generalizing rev with
  | nil =>
    have hCloses : closes rev quote = true := by simpa [closes, Inside] using h
    simp [parseString, hCloses]
  | cons b t ih =>
    rw [List.cons_append, parseString, h.1, ih h.2]
    simp

theorem parseSquash_of_inside {rev t : Bytes} (h : Inside rev t) (depth : Nat) (rest : Bytes) :
    parseSquash depth (some rev) (t ++ quote :: rest) =
      prepend (t ++ [quote]) (parseSquash depth none rest) := by
  induction t generalizing rev with
  | nil =>
    have hCloses : closes rev quote = true := by simpa [closes, Inside] using h
    simp [parseSquash, hCloses]
  | cons b t ih =>
    rw [List.cons_append, parseSquash, h.1, ih h.2]
    simp [prepend]

end Strings

section Nesting

/-- A stretch of text that leaves the depth as it was and no string open. -/
def Level (t : Bytes) : Prop :=
  ∀ depth rest, 0 < depth → parseSquash depth none (t ++ rest) = prepend t (parseSquash depth none rest)

def isQuiet (b : UInt8) : Bool :=
  b ≠ quote && b ≠ openBrace && b ≠ openBracket && b ≠ closeBrace && b ≠ closeBracket

theorem Level.append {t t' : Bytes} (h : Level t) (h' : Level t') : Level (t ++ t') := by
  intro depth rest hDepth
  rw [List.append_assoc, h depth _ hDepth, h' depth rest hDepth]
  simp [prepend]

theorem Level.quiet {t : Bytes} (h : ∀ b ∈ t, isQuiet b = true) : Level t := by
  intro depth rest hDepth
  induction t with
  | nil => rfl
  | cons b t ih =>
    have hb : (((b ≠ quote ∧ b ≠ openBrace) ∧ b ≠ openBracket) ∧ b ≠ closeBrace) ∧ b ≠ closeBracket := by
      simpa [isQuiet] using h b List.mem_cons_self
    rw [List.cons_append, parseSquash, ih fun c hc => h c (List.mem_cons_of_mem b hc)]
    simp [hb, prepend]

theorem Level.string {s : Bytes} (h : Body s) : Level (quote :: (s ++ [quote])) := by
  intro depth rest _
  have hInside : Inside [] s := inside_of_body h rfl
  rw [List.cons_append, List.append_assoc, List.singleton_append, parseSquash,
    parseSquash_of_inside hInside]
  simp [prepend]

theorem parseSquash_close {t : Bytes} (h : Level t) {c : UInt8} (hc : Closes c) (rest : Bytes) :
    parseSquash 1 none (t ++ c :: rest) = (t ++ [c], rest) := by
  rw [h 1 _ Nat.one_pos]
  rcases hc with rfl | rfl <;> rfl

theorem Level.brackets {t : Bytes} (h : Level t) {o c : UInt8} (ho : o = openBrace ∨ o = openBracket)
    (hc : Closes c) : Level (o :: (t ++ [c])) := by
  intro depth rest hDepth
  have hOpen : o ≠ quote := by rcases ho with rfl | rfl <;> decide
  have hClose : c ≠ quote ∧ c ≠ openBrace ∧ c ≠ openBracket := by rcases hc with rfl | rfl <;> decide
  have hEnds : (decide (c = closeBrace) || decide (c = closeBracket)) = true := by
    rcases hc with rfl | rfl <;> rfl
  have hDeep : depth ≠ 0 := by omega
  rw [List.cons_append, List.append_assoc, List.singleton_append, parseSquash, if_neg hOpen,
    if_pos (by simpa using ho), h (depth + 1) _ (Nat.succ_pos _), parseSquash, if_neg hClose.1]
  simp [hClose, hEnds, hDeep, prepend]

theorem isQuiet_of_isSpace {b : UInt8} (h : isSpace b = true) : isQuiet b = true := by
  rcases isSpace_cases h with rfl | rfl | rfl | rfl <;> rfl

theorem isQuiet_of_isNumeral {b : UInt8} (h : isNumeral b = true) : isQuiet b = true := by
  simp only [isQuiet, Bool.and_eq_true, decide_eq_true_eq]
  refine ⟨⟨⟨⟨?_, ?_⟩, ?_⟩, ?_⟩, ?_⟩ <;> rintro rfl <;> cases h

theorem Level.space {w : Bytes} (h : Space w) : Level w :=
  Level.quiet fun b hb => isQuiet_of_isSpace (h b hb)

theorem Level.listed {α : Type} {P : α → Bytes → Prop} (hP : ∀ x v, P x v → Level v) {xs : List α}
    {t : Bytes} (h : Listed P xs t) : Level t := by
  induction h with
  | one hv hw => exact (hP _ _ hv).append (.space hw)
  | cons hv hw hw' _ ih =>
    have hComma : Level [Lib.Json.comma] := .quiet (List.all_eq_true.mp rfl)
    exact (hP _ _ hv).append ((Level.space hw).append (hComma.append ((Level.space hw').append ih)))

theorem Level.inner {α : Type} {P : α → Bytes → Prop} (hP : ∀ x v, P x v → Level v) {o c : UInt8}
    {xs : List α} {t : Bytes} (h : Enclosed P o c xs t) : ∃ s, t = o :: (s ++ [c]) ∧ Level s := by
  obtain ⟨w, s, rfl, hw, hList⟩ := h
  refine ⟨w ++ s, by simp, (Level.space hw).append ?_⟩
  rcases hList with ⟨-, rfl⟩ | hListed
  · exact .space .nil
  · exact .listed hP hListed

theorem Level.member {P : Value → Bytes → Prop} (hP : ∀ v t, P v t → Level t) {m : Bytes × Value}
    {t : Bytes} (h : Member P m t) : Level t := by
  obtain ⟨w, w', v, rfl, hBody, hw, hw', hv⟩ := h
  have hColon : Level [colon] := .quiet (List.all_eq_true.mp rfl)
  have hLevel := (Level.string hBody).append
    ((Level.space hw).append (hColon.append ((Level.space hw').append (hP _ _ hv))))
  simpa using hLevel

theorem level_of_spells {n : Nat} {v : Value} {t : Bytes} (h : Spells n v t) : Level t := by
  induction n generalizing v t with
  | zero => cases h
  | succ n ih =>
    cases v with
    | null => cases h; exact .quiet (List.all_eq_true.mp rfl)
    | bool b => cases h; cases b <;> exact .quiet (List.all_eq_true.mp rfl)
    | num d =>
      obtain ⟨rfl, hNumber⟩ := h
      exact .quiet fun b hb => isQuiet_of_isNumeral (isNumber_numeral hNumber b hb)
    | str s => obtain ⟨rfl, hBody⟩ := h; exact .string hBody
    | arr items =>
      obtain ⟨s, rfl, hs⟩ := Level.inner (fun _ _ hv => ih hv) h
      exact hs.brackets (.inr rfl) (.inl rfl)
    | obj members =>
      obtain ⟨s, rfl, hs⟩ := Level.inner (fun _ _ hm => Level.member (fun _ _ hv => ih hv) hm) h
      exact hs.brackets (.inl rfl) (.inr rfl)

end Nesting

section Members

theorem endsNumber_of_isNumeral {b : UInt8} (h : isNumeral b = true) : endsNumber b = false := by
  simp only [isNumeral, isDigit, minus, Bool.or_eq_true, Bool.and_eq_true, decide_eq_true_eq,
    UInt8.le_iff_toNat_le, ← UInt8.toNat_inj, UInt8.reduceToNat] at h
  simp only [endsNumber, Lib.Json.comma, closeBracket, closeBrace, Bool.or_eq_false_iff,
    decide_eq_false_iff_not, UInt8.le_iff_toNat_le, ← UInt8.toNat_inj, UInt8.reduceToNat]
  omega

theorem parseNumber_append {d rest : Bytes} (h : ∀ b ∈ d, isNumeral b = true) (hEnds : Ends rest) :
    parseNumber (d ++ rest) = (d, rest) := by
  have hStops : ∀ b, isEnd b = true → (!endsNumber b) = false :=
    fun b hb => eq_false_of_isEnd (p := fun b => !endsNumber b) rfl hb
  have hNumber : ∀ b ∈ d, (!endsNumber b) = true := by
    intro b hb
    rw [endsNumber_of_isNumeral (h b hb)]
    rfl
  obtain ⟨hTake, hDrop⟩ := hEnds.span hStops hNumber
  simp only [parseNumber, hTake, hDrop]

theorem parseLiteral_append {w rest : Bytes} (h : ∀ b ∈ w, isLetter b = true) (hEnds : Ends rest) :
    parseLiteral (w ++ rest) = (w, rest) := by
  have hStops : ∀ b, isEnd b = true → isLetter b = false :=
    fun b hb => eq_false_of_isEnd (p := isLetter) rfl hb
  obtain ⟨hTake, hDrop⟩ := hEnds.span hStops h
  simp only [parseLiteral, hTake, hDrop]

theorem nextValue_word {b : UInt8} (hb : b = 116 ∨ b = 102 ∨ b = 110) {w rest : Bytes}
    (h : ∀ c ∈ w, isLetter c = true) (hEnds : Ends rest) :
    nextValue (b :: (w ++ rest)) = some (b :: w, rest) := by
  rw [nextValue, parseLiteral_append h hEnds]
  rcases hb with rfl | rfl | rfl <;> rfl

theorem nextValue_brackets {o c : UInt8} (ho : o = openBrace ∨ o = openBracket) (hc : Closes c)
    {s : Bytes} (hs : Level s) (rest : Bytes) :
    nextValue (o :: (s ++ c :: rest)) = some (o :: (s ++ [c]), rest) := by
  rw [nextValue, parseSquash_close hs hc]
  rcases ho with rfl | rfl <;> rfl

/-- The scanner takes a value of the grammar as a whole, whatever is in it. -/
theorem nextValue_of_spells {n : Nat} {v : Value} {t rest : Bytes} (h : Spells n v t)
    (hEnds : Ends rest) : nextValue (t ++ rest) = some (t, rest) := by
  cases n with
  | zero => cases h
  | succ n =>
    cases v with
    | null => cases h; exact nextValue_word (.inr (.inr rfl)) (List.all_eq_true.mp rfl) hEnds
    | bool b =>
      cases h
      cases b with
      | true => exact nextValue_word (.inl rfl) (List.all_eq_true.mp rfl) hEnds
      | false => exact nextValue_word (.inr (.inl rfl)) (List.all_eq_true.mp rfl) hEnds
    | num d =>
      obtain ⟨rfl, hNumber⟩ := h
      have hNumeral := isNumber_numeral hNumber
      obtain ⟨b, s, rfl, hb⟩ := isNumber_head hNumber
      have hNe : b ≠ quote ∧ b ≠ openBrace ∧ b ≠ openBracket := by
        rcases hb with rfl | hb
        · decide
        · refine ⟨?_, ?_, ?_⟩ <;> rintro rfl <;> cases hb
      have hFirst : (decide (b = minus) || isDigit b) = true := by simpa using hb
      have hRead := parseNumber_append (fun c hc => hNumeral c (List.mem_cons_of_mem b hc)) hEnds
      rw [List.cons_append, nextValue, if_neg hNe.1, if_neg (by simp [hNe]), if_pos hFirst, hRead]
      rfl
    | str s =>
      obtain ⟨rfl, hBody⟩ := h
      have hInside : Inside [] s := inside_of_body hBody rfl
      have hRead := parseString_of_inside hInside rest
      rw [List.cons_append, List.append_assoc, List.singleton_append, nextValue, if_pos rfl, hRead]
      rfl
    | arr items =>
      obtain ⟨s, rfl, hs⟩ := Level.inner (fun _ _ => level_of_spells) h
      simpa using nextValue_brackets (.inr rfl) (.inl rfl) hs rest
    | obj members =>
      obtain ⟨s, rfl, hs⟩ := Level.inner (fun _ _ => Level.member fun _ _ => level_of_spells) h
      simpa using nextValue_brackets (.inl rfl) (.inr rfl) hs rest

theorem nextValue_space {w : Bytes} (h : Space w) (s : Bytes) : nextValue (w ++ s) = nextValue s := by
  induction w with
  | nil => rfl
  | cons b w ih =>
    have hb := isSpace_cases (h b List.mem_cons_self)
    rw [List.cons_append, nextValue, ih fun c hc => h c (List.mem_cons_of_mem b hc)]
    rcases hb with rfl | rfl | rfl | rfl <;> rfl

theorem nextKey_space {w : Bytes} (h : Space w) (s : Bytes) : nextKey (w ++ s) = nextKey s := by
  induction w with
  | nil => rfl
  | cons b w ih =>
    have hb := isSpace_cases (h b List.mem_cons_self)
    rw [List.cons_append, nextKey, ih fun c hc => h c (List.mem_cons_of_mem b hc)]
    rcases hb with rfl | rfl | rfl | rfl <;> rfl

theorem nextKey_of_member {n : Nat} {m : Bytes × Value} {t rest : Bytes} (h : Member (Spells n) m t)
    (hEnds : Ends rest) :
    ∃ s v, nextKey (t ++ rest) = some (m.1, s) ∧ nextValue s = some (v, rest) ∧ Spells n m.2 v := by
  obtain ⟨w, w', v, rfl, hBody, hw, hw', hv⟩ := h
  have hInside : Inside [] m.1 := inside_of_body hBody rfl
  have hRead := parseString_of_inside hInside (w ++ colon :: (w' ++ (v ++ rest)))
  refine ⟨w ++ colon :: (w' ++ (v ++ rest)), v, ?_, ?_, hv⟩
  · simpa [nextKey] using hRead
  · have hColon : nextValue (colon :: (w' ++ (v ++ rest))) = nextValue (w' ++ (v ++ rest)) := rfl
    rw [nextValue_space hw, hColon, nextValue_space hw', nextValue_of_spells hv hEnds]

def isNamed (path : Bytes) (m : Bytes × Value) : Bool := keyName m.1 = path

/-- The answer for the members of an object: the text of the first value of that name. -/
def Finds (path : Bytes) (ms : List (Bytes × Value)) : Option Bytes → Prop
  | none => ms.find? (isNamed path) = none
  | some raw => ∃ m n, ms.find? (isNamed path) = some m ∧ Spells n m.2 raw

theorem Finds.cons {path : Bytes} {m : Bytes × Value} {ms : List (Bytes × Value)} {r : Option Bytes}
    (hm : keyName m.1 ≠ path) (h : Finds path ms r) : Finds path (m :: ms) r := by
  have hNamed : isNamed path m = false := by simp [isNamed, hm]
  cases r <;> simpa only [Finds, List.find?_cons, hNamed] using h

theorem Finds.here {path v : Bytes} {m : Bytes × Value} {ms : List (Bytes × Value)} {n : Nat}
    (hm : keyName m.1 = path) (h : Spells n m.2 v) : Finds path (m :: ms) (some v) :=
  ⟨m, n, by simp [isNamed, hm], h⟩

theorem parseObject_closed (path : Bytes) (k : Nat) {w : Bytes} (hw : Space w) (rest : Bytes) :
    parseObject path k (w ++ closeBrace :: rest) = none := by
  cases k with
  | zero => rfl
  | succ k =>
    rw [parseObject, nextKey_space hw]
    rfl

theorem finds_members {n : Nat} (path : Bytes) {ms : List (Bytes × Value)} {t : Bytes}
    (h : Listed (Member (Spells n)) ms t) {k : Nat} (hk : ms.length ≤ k) {w : Bytes} (hw : Space w)
    (rest : Bytes) : Finds path ms (parseObject path k (w ++ (t ++ closeBrace :: rest))) := by
  induction h generalizing k w with
  | @one m v w₁ hm hw₁ =>
    obtain ⟨k, rfl⟩ : ∃ j, k = j + 1 := ⟨k - 1, by simp only [List.length_singleton] at hk; omega⟩
    have hEnds : Ends (w₁ ++ closeBrace :: rest) := .space hw₁ (.cons rfl _)
    obtain ⟨s, u, hKey, hVal, hu⟩ := nextKey_of_member hm hEnds
    rw [parseObject, nextKey_space hw, List.append_assoc, hKey, Option.bind_some, hVal, Option.bind_some]
    by_cases hName : keyName m.1 = path
    · rw [if_pos hName]
      exact .here hName hu
    · rw [if_neg hName, parseObject_closed path k hw₁]
      exact .cons hName rfl
  | @cons m ms v w₁ w₂ t hm hw₁ hw₂ _ ih =>
    obtain ⟨k, rfl⟩ : ∃ j, k = j + 1 := ⟨k - 1, by simp only [List.length_cons] at hk; omega⟩
    have hEnds : Ends (w₁ ++ Lib.Json.comma :: (w₂ ++ (t ++ closeBrace :: rest))) :=
      .space hw₁ (.cons rfl _)
    obtain ⟨s, u, hKey, hVal, hu⟩ := nextKey_of_member hm hEnds
    have hShape : w ++ (v ++ (w₁ ++ Lib.Json.comma :: (w₂ ++ t)) ++ closeBrace :: rest) =
        w ++ (v ++ (w₁ ++ Lib.Json.comma :: (w₂ ++ (t ++ closeBrace :: rest)))) := by simp
    rw [hShape, parseObject, nextKey_space hw, hKey, Option.bind_some, hVal, Option.bind_some]
    by_cases hName : keyName m.1 = path
    · rw [if_pos hName]
      exact .here hName hu
    · have hNext : parseObject path k (w₁ ++ Lib.Json.comma :: (w₂ ++ (t ++ closeBrace :: rest))) =
          parseObject path k (w₂ ++ (t ++ closeBrace :: rest)) := by
        cases k with
        | zero => rfl
        | succ k =>
          rw [parseObject, parseObject, nextKey_space hw₁]
          rfl
      rw [if_neg hName, hNext]
      exact .cons hName (ih (by simp only [List.length_cons] at hk; omega) hw₂)

theorem dropWhile_space {w : Bytes} (h : Space w) (s : Bytes) :
    ((w ++ s).dropWhile fun b => b ≠ openBrace && b ≠ openBracket) =
      s.dropWhile fun b => b ≠ openBrace && b ≠ openBracket := by
  refine List.dropWhile_append_of_pos ?_
  intro b hb
  rcases isSpace_cases (h b hb) with rfl | rfl | rfl | rfl <;> rfl

/-- On the text of an object, the reader finds the first member of that name. -/
theorem finds_get {ms : List (Bytes × Value)} {p : Bytes} (h : IsText (.obj ms) p) (path : Bytes) :
    Finds path ms (get p path) := by
  obtain ⟨n, w, t, w', rfl, hw, -, hSpells⟩ := h
  cases n with
  | zero => cases hSpells
  | succ n =>
    obtain ⟨w₁, s, rfl, hw₁, hList⟩ := hSpells
    have hGet : get (w ++ (openBrace :: (w₁ ++ (s ++ [closeBrace])) ++ w')) path =
        parseObject path (w₁ ++ (s ++ closeBrace :: w')).length (w₁ ++ (s ++ closeBrace :: w')) := by
      rw [get, dropWhile_space hw]
      simp [openBrace]
    rw [hGet]
    rcases hList with ⟨rfl, rfl⟩ | hListed
    · rw [List.nil_append, parseObject_closed path _ hw₁]
      rfl
    · have hLength := hListed.length_le fun _ _ => member_starts
      exact finds_members path hListed (by simp only [List.length_append]; omega) hw₁ w'

theorem get_null {p : Bytes} (h : IsText .null p) (path : Bytes) : get p path = none := by
  obtain ⟨n, w, t, w', rfl, hw, hw', hSpells⟩ := h
  cases n with
  | zero => cases hSpells
  | succ n =>
    cases hSpells
    have hRest : (w'.dropWhile fun b => b ≠ openBrace && b ≠ openBracket) = [] := by
      simpa using dropWhile_space hw' []
    have hNull : ((nullWord ++ w').dropWhile fun b => b ≠ openBrace && b ≠ openBracket) =
        w'.dropWhile fun b => b ≠ openBrace && b ≠ openBracket :=
      List.dropWhile_append_of_pos (List.all_eq_true.mp rfl)
    rw [get, dropWhile_space hw, hNull, hRest]

end Members

end Sara.Gjson
