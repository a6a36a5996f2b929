import Sara.Lib.Json

/-! # JSON strings over UTF-8

A string is written with its quotes, backslashes, control characters and the
characters that matter to HTML escaped, and read back with the escapes resolved.
Both sides replace bytes that are no character by U+FFFD. A string of UTF-8
comes back as it was.
-/

namespace Sara.Lib.Json

set_option autoImplicit false

section Characters

/-- The length of a character with this first byte, and the range of its second byte. -/
def runeShape (b : UInt8) : Option (Nat × UInt8 × UInt8) :=
  if 194 ≤ b && b ≤ 223 then some (2, 128, 191)
  else if b = 224 then some (3, 160, 191)
  else if b = 237 then some (3, 128, 159)
  else if 225 ≤ b && b ≤ 239 then some (3, 128, 191)
  else if b = 240 then some (4, 144, 191)
  else if 241 ≤ b && b ≤ 243 then some (4, 128, 191)
  else if b = 244 then some (4, 128, 143)
  else none

/-- The length of the character a text begins with, or `0` if it begins with none. -/
def runeSize : Text → Nat
  | [] => 0
  | b :: s =>
    if b < 128 then 1
    else
      match runeShape b with
      | none => 0
      | some (size, low, high) =>
        match s.take (size - 1) with
        | [] => 0
        | c :: cs =>
          if cs.length + 2 = size && (low ≤ c && c ≤ high) && cs.all fun c => 128 ≤ c && c ≤ 191 then size
          else 0

def isRune (c : Text) : Bool := c ≠ [] && runeSize c = c.length

def charsFrom : Nat → Text → List Text
  | 0, _ => []
  | _ + 1, [] => []
  | n + 1, b :: s =>
    let k := max 1 (runeSize (b :: s))
    (b :: s).take k :: charsFrom n ((b :: s).drop k)

def chars (s : Text) : List Text := charsFrom s.length s

def isUtf8 (s : Text) : Bool := (chars s).all isRune

def replacement : Text := [239, 191, 189]

def encodeRune (c : Nat) : Text :=
  if c < 128 then [UInt8.ofNat c]
  else if c < 2048 then [UInt8.ofNat (192 + c / 64), UInt8.ofNat (128 + c % 64)]
  else if 55296 ≤ c && c < 57344 then replacement
  else if c < 65536 then
    [UInt8.ofNat (224 + c / 4096), UInt8.ofNat (128 + c / 64 % 64), UInt8.ofNat (128 + c % 64)]
  else
    [UInt8.ofNat (240 + c / 262144), UInt8.ofNat (128 + c / 4096 % 64), UInt8.ofNat (128 + c / 64 % 64),
      UInt8.ofNat (128 + c % 64)]

end Characters

section Writing

def hexChar (n : Nat) : UInt8 := if n < 10 then UInt8.ofNat (48 + n) else UInt8.ofNat (87 + n)

def escapeByte (b : UInt8) : Text :=
  if b = quote || b = backslash then [backslash, b]
  else if b = 10 then [backslash, 110]
  else if b = 13 then [backslash, 114]
  else if b = 9 then [backslash, 116]
  else if b < 32 || b = 38 || b = 60 || b = 62 then
    [backslash, letterU, 48, 48, hexChar (b.toNat / 16), hexChar (b.toNat % 16)]
  else [b]

/-- The two line separators beyond ASCII are escaped as well, for scripts. -/
def escapeChar (c : Text) : Text :=
  if !isRune c then [backslash, letterU, 102, 102, 102, 100]
  else if c = [226, 128, 168] then [backslash, letterU, 50, 48, 50, 56]
  else if c = [226, 128, 169] then [backslash, letterU, 50, 48, 50, 57]
  else
    match c with
    | [b] => escapeByte b
    | c => c

def escape (s : Text) : Text := (chars s).flatMap escapeChar

end Writing

section Reading

def hexValue (b : UInt8) : Nat :=
  if isDigit b then b.toNat - 48 else if 97 ≤ b then b.toNat - 87 else b.toNat - 55

def code4 (s : Text) : Nat := (s.take 4).foldl (fun n b => 16 * n + hexValue b) 0

def unescapeByte (e : UInt8) : UInt8 :=
  if e = 98 then 8
  else if e = 102 then 12
  else if e = 110 then 10
  else if e = 114 then 13
  else if e = 116 then 9
  else e

/-- The second half of a surrogate pair whose first half is `c`. -/
def lowHalf (c : Nat) : Text → Option Nat
  | b :: e :: s =>
    let d := code4 s
    if b = backslash && e = letterU && c < 56320 && 56320 ≤ d && d < 57344 then some d else none
  | _ => none

def unquoteFrom : Nat → Text → Text
  | 0, _ => []
  | _ + 1, [] => []
  | n + 1, b :: s =>
    if b = backslash then
      match s with
      | [] => []
      | e :: s =>
        if e = letterU then
          let c := code4 s
          let s := s.drop 4
          if 55296 ≤ c && c < 57344 then
            match lowHalf c s with
            | some d => encodeRune (65536 + (c - 55296) * 1024 + (d - 56320)) ++ unquoteFrom n (s.drop 6)
            | none => replacement ++ unquoteFrom n s
          else encodeRune c ++ unquoteFrom n s
        else unescapeByte e :: unquoteFrom n s
    else
      let k := runeSize (b :: s)
      if k = 0 then replacement ++ unquoteFrom n s
      else (b :: s).take k ++ unquoteFrom n ((b :: s).drop k)

def unquote (s : Text) : Text := unquoteFrom s.length s

end Reading

section RoundTrip

theorem flatten_charsFrom {n : Nat} {s : Text} (h : s.length ≤ n) : (charsFrom n s).flatten = s := by
  induction n generalizing s with
  | zero =>
    rw [List.length_eq_zero_iff.mp (Nat.le_zero.mp h)]
    rfl
  | succ n ih =>
    cases s with
    | nil => rfl
    | cons b s =>
      have hDrop : ((b :: s).drop (max 1 (runeSize (b :: s)))).length ≤ n := by
        simp only [List.length_drop, List.length_cons] at h ⊢
        omega
      simp only [charsFrom, List.flatten_cons, ih hDrop, List.take_append_drop]

theorem flatten_chars (s : Text) : (chars s).flatten = s := flatten_charsFrom (Nat.le_refl _)

theorem runeShape_low {b : UInt8} {size : Nat} {low high : UInt8}
    (h : runeShape b = some (size, low, high)) : 128 ≤ low := by
  unfold runeShape at h
  split_ifs at h <;> cases h <;> decide

/-- A character is one byte of ASCII, or a shape filled with bytes beyond it. -/
theorem isRune_cases {c : Text} (h : isRune c = true) :
    (∃ b, c = [b] ∧ b < 128) ∨ ∃ b d cs low high, c = b :: d :: cs ∧ ¬ b < 128 ∧
      runeShape b = some (c.length, low, high) ∧ (low ≤ d ∧ d ≤ high) ∧
        cs.all (fun c => 128 ≤ c && c ≤ 191) = true := by
  cases c with
  | nil => cases h
  | cons b s =>
    have hSize : runeSize (b :: s) = s.length + 1 := by simpa [isRune] using h
    by_cases hAscii : b < 128
    · simp only [runeSize, hAscii, if_true] at hSize
      have hNil : s = [] := List.length_eq_zero_iff.mp (by omega)
      exact .inl ⟨b, by rw [hNil], hAscii⟩
    · simp only [runeSize, hAscii, if_false] at hSize
      cases hShape : runeShape b with
      | none => simp [hShape] at hSize
      | some shape =>
        obtain ⟨size, low, high⟩ := shape
        simp only [hShape] at hSize
        cases hTake : s.take (size - 1) with
        | nil => simp [hTake] at hSize
        | cons d cs =>
          simp only [hTake] at hSize
          split_ifs at hSize with hCond
          simp only [Bool.and_eq_true, decide_eq_true_eq] at hCond
          have hs : s = d :: cs := by
            rw [← hTake, List.take_of_length_le (by omega)]
          exact .inr ⟨b, d, cs, low, high, by rw [hs], hAscii, by rw [hShape, hSize, List.length_cons],
            hCond.1.2, hCond.2⟩

theorem runeSize_append {c : Text} (h : isRune c = true) (t : Text) :
    runeSize (c ++ t) = c.length := by
  rcases isRune_cases h with ⟨b, rfl, hb⟩ | ⟨b, d, cs, low, high, rfl, hb, hShape, hd, hcs⟩
  · simp [runeSize, hb]
  · simp only [List.length_cons] at hShape
    simp [runeSize, hb, hShape, hd, hcs]

theorem isPlain_of_ge {b : UInt8} (h : 128 ≤ b) : isPlain b = true := by
  simp only [isPlain, quote, backslash, Bool.and_eq_true, decide_eq_true_eq, UInt8.le_iff_toNat_le,
    ne_eq, ← UInt8.toNat_inj, UInt8.reduceToNat] at h ⊢
  omega

theorem Body.append {t u : Text} (ht : Body t) (hu : Body u) : Body (t ++ u) := by
  induction ht with
  | nil => exact hu
  | plain hb _ ih => exact .plain hb ih
  | escape he _ ih => exact .escape he ih
  | unicode hHex _ ih => exact .unicode hHex ih

theorem Body.of_plain {t : Text} (h : ∀ b ∈ t, isPlain b = true) : Body t := by
  induction t with
  | nil => exact .nil
  | cons b t ih =>
    exact .plain (h b List.mem_cons_self) (ih fun c hc => h c (List.mem_cons_of_mem b hc))

theorem isHex_hexChar {n : Nat} (h : n < 16) : isHex (hexChar n) = true := by
  have hAll : ∀ m : Fin 16, isHex (hexChar m) = true := by decide
  exact hAll ⟨n, h⟩

theorem hexValue_hexChar {n : Nat} (h : n < 16) : hexValue (hexChar n) = n := by
  have hAll : ∀ m : Fin 16, hexValue (hexChar m) = m := by decide
  exact hAll ⟨n, h⟩

theorem body_escapeByte (b : UInt8) : Body (escapeByte b) := by
  have hHigh : b.toNat / 16 < 16 := by have := b.toNat_lt; omega
  have hLow : b.toNat % 16 < 16 := Nat.mod_lt _ (by decide)
  unfold escapeByte
  split_ifs with hEscape hN hR hT hHex
  · refine .escape ?_ .nil
    simp only [Bool.or_eq_true, decide_eq_true_eq] at hEscape
    rcases hEscape with rfl | rfl <;> rfl
  · exact .escape rfl .nil
  · exact .escape rfl .nil
  · exact .escape rfl .nil
  · refine .unicode ?_ .nil
    simp only [List.all_cons, isHex_hexChar hHigh, isHex_hexChar hLow]
    rfl
  · refine .plain ?_ .nil
    simp only [Bool.or_eq_true, decide_eq_true_eq, not_or] at hEscape hHex
    simp [isPlain, hEscape, UInt8.not_lt.mp hHex.1.1.1]

theorem body_escapeChar (c : Text) : Body (escapeChar c) := by
  unfold escapeChar
  split_ifs with hRune h₁ h₂
  · exact .unicode rfl .nil
  · exact .unicode rfl .nil
  · exact .unicode rfl .nil
  · have hIs : isRune c = true := by simpa using hRune
    rcases isRune_cases hIs with ⟨b, rfl, -⟩ | ⟨b, d, cs, low, high, rfl, hb, hShape, hd, hcs⟩
    · exact body_escapeByte b
    · refine .of_plain ?_
      intro e he
      refine isPlain_of_ge ?_
      rcases List.mem_cons.mp he with rfl | he
      · exact UInt8.not_lt.mp hb
      rcases List.mem_cons.mp he with rfl | he
      · exact UInt8.le_trans (runeShape_low hShape) hd.1
      · have hCont := List.all_eq_true.mp hcs e he
        simp only [Bool.and_eq_true, decide_eq_true_eq] at hCont
        exact hCont.1

theorem body_escape (s : Text) : Body (escape s) := by
  unfold escape
  induction chars s with
  | nil => exact .nil
  | cons c cs ih => exact (body_escapeChar c).append ih

theorem unquoteFrom_rune {c : Text} (h : isRune c = true) (hSlash : c.head? ≠ some backslash) (n : Nat)
    (t : Text) : unquoteFrom (n + 1) (c ++ t) = c ++ unquoteFrom n t := by
  have hSize := runeSize_append h t
  cases c with
  | nil => cases h
  | cons b s =>
    have hb : b ≠ backslash := fun hEq => hSlash (by rw [hEq]; rfl)
    rw [List.cons_append] at hSize ⊢
    rw [unquoteFrom.eq_def]
    simp only [if_neg hb, hSize]
    simp

theorem unquoteFrom_code {h₁ h₂ h₃ h₄ : UInt8} (hLow : code4 [h₁, h₂, h₃, h₄] < 55296) (n : Nat)
    (t : Text) : unquoteFrom (n + 1) ([backslash, letterU, h₁, h₂, h₃, h₄] ++ t) =
      encodeRune (code4 [h₁, h₂, h₃, h₄]) ++ unquoteFrom n t := by
  have hCode : code4 (h₁ :: h₂ :: h₃ :: h₄ :: t) = code4 [h₁, h₂, h₃, h₄] := rfl
  have hNot : (decide (55296 ≤ code4 [h₁, h₂, h₃, h₄]) && decide (code4 [h₁, h₂, h₃, h₄] < 57344)) =
      false := by
    simp only [Bool.and_eq_false_iff, decide_eq_false_iff_not]
    omega
  simp only [List.cons_append, List.nil_append, unquoteFrom, if_true, hCode, hNot, Bool.false_eq_true,
    if_false, List.drop_succ_cons, List.drop_zero]

theorem unquoteFrom_escapeByte {b : UInt8} (hb : b < 128) (n : Nat) (t : Text) :
    unquoteFrom (n + 1) (escapeByte b ++ t) = b :: unquoteFrom n t := by
  have hHigh : b.toNat / 16 < 16 := by have := b.toNat_lt; omega
  have hLow : b.toNat % 16 < 16 := Nat.mod_lt _ (by decide)
  have hAscii : b.toNat < 128 := UInt8.lt_iff_toNat_lt.mp hb
  unfold escapeByte
  split_ifs with hEscape hN hR hT hHex
  · simp only [Bool.or_eq_true, decide_eq_true_eq] at hEscape
    rcases hEscape with rfl | rfl <;> rfl
  · subst hN; rfl
  · subst hR; rfl
  · subst hT; rfl
  · have hCode : code4 [48, 48, hexChar (b.toNat / 16), hexChar (b.toNat % 16)] = b.toNat := by
      have hZero : hexValue 48 = 0 := rfl
      simp only [code4, List.take_succ_cons, List.take_zero, List.foldl_cons, List.foldl_nil, hZero,
        hexValue_hexChar hHigh, hexValue_hexChar hLow]
      omega
    rw [unquoteFrom_code (by omega), hCode, encodeRune, if_pos hAscii]
    simp
  · have hRune : isRune [b] = true := by simp [isRune, runeSize, hb]
    refine unquoteFrom_rune hRune ?_ n t
    simp only [Bool.or_eq_true, decide_eq_true_eq, not_or] at hEscape
    simpa using hEscape.2

theorem unquoteFrom_escapeChar {c : Text} (h : isRune c = true) (n : Nat) (t : Text) :
    unquoteFrom (n + 1) (escapeChar c ++ t) = c ++ unquoteFrom n t := by
  unfold escapeChar
  simp only [h, Bool.not_true, Bool.false_eq_true, if_false]
  split_ifs with h₁ h₂
  · rw [h₁]
    exact unquoteFrom_code (by decide) n t
  · rw [h₂]
    exact unquoteFrom_code (by decide) n t
  · rcases isRune_cases h with ⟨b, rfl, hb⟩ | ⟨b, d, cs, low, high, rfl, hb, -⟩
    · exact unquoteFrom_escapeByte hb n t
    · refine unquoteFrom_rune h ?_ n t
      intro hEq
      cases hEq
      exact hb (by decide)

theorem escapeChar_ne_nil {c : Text} (h : isRune c = true) : escapeChar c ≠ [] := by
  intro hNil
  have hRead := unquoteFrom_escapeChar h 0 []
  rw [hNil] at hRead
  cases c with
  | nil => cases h
  | cons b s => cases hRead

theorem unquoteFrom_chars {cs : List Text} (h : ∀ c ∈ cs, isRune c = true) {n : Nat}
    (hn : (cs.flatMap escapeChar).length ≤ n) :
    unquoteFrom n (cs.flatMap escapeChar) = cs.flatten := by
  induction cs generalizing n with
  | nil => cases n <;> rfl
  | cons c cs ih =>
    have hc := h c List.mem_cons_self
    have hPos := List.length_pos_of_ne_nil (escapeChar_ne_nil hc)
    rw [List.flatMap_cons, List.length_append] at hn
    obtain ⟨n, rfl⟩ : ∃ m, n = m + 1 := ⟨n - 1, by omega⟩
    rw [List.flatMap_cons, unquoteFrom_escapeChar hc, List.flatten_cons,
      ih (fun d hd => h d (List.mem_cons_of_mem c hd)) (by omega)]

theorem unquote_escape {s : Text} (h : isUtf8 s = true) : unquote (escape s) = s :=
  calc unquote (escape s) = (chars s).flatten :=
        unquoteFrom_chars (List.all_eq_true.mp h) (Nat.le_refl _)
    _ = s := flatten_chars s

end RoundTrip

end Sara.Lib.Json
