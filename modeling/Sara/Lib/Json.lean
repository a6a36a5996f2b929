import Mathlib.Tactic.Common
import Mathlib.Data.List.Basic
import Mathlib.Data.List.TakeWhile

/-! # JSON texts

The grammar of JSON over bytes, and a reader for it. A value keeps numbers and
strings as they are written, and an object keeps its members in their order,
repeated names included. `Spells n v t` says that `t`, without space around it,
is a text of `v` nested less than `n` deep. The reader accepts exactly the texts
of the grammar.
-/

namespace Sara.Lib.Json

set_option autoImplicit false

abbrev Text := List UInt8

inductive Value where
  | null
  | bool (b : Bool)
  | num (digits : Text)
  | str (body : Text)
  | arr (items : List Value)
  | obj (members : List (Text × Value))

section Characters

def quote : UInt8 := 34
def backslash : UInt8 := 92
def comma : UInt8 := 44
def colon : UInt8 := 58
def minus : UInt8 := 45
def openBracket : UInt8 := 91
def closeBracket : UInt8 := 93
def openBrace : UInt8 := 123
def closeBrace : UInt8 := 125
def letterU : UInt8 := 117

def nullWord : Text := [110, 117, 108, 108]

def boolWord : Bool → Text
  | true => [116, 114, 117, 101]
  | false => [102, 97, 108, 115, 101]

def isSpace (b : UInt8) : Bool := b = 32 || b = 9 || b = 10 || b = 13

def isDigit (b : UInt8) : Bool := 48 ≤ b && b ≤ 57

def isNumeral (b : UInt8) : Bool := isDigit b || b = 43 || b = minus || b = 46 || b = 69 || b = 101

def isHex (b : UInt8) : Bool := isDigit b || (97 ≤ b && b ≤ 102) || (65 ≤ b && b ≤ 70)

def isEscape (b : UInt8) : Bool :=
  b = quote || b = backslash || b = 47 || b = 98 || b = 102 || b = 110 || b = 114 || b = 116

def isPlain (b : UInt8) : Bool := 32 ≤ b && b ≠ quote && b ≠ backslash

/-- The bytes that can follow a value inside a text. -/
def isEnd (b : UInt8) : Bool := isSpace b || b = comma || b = closeBracket || b = closeBrace

def Space (w : Text) : Prop := ∀ b ∈ w, isSpace b = true

def Starts (t : Text) : Prop := ∃ b s, t = b :: s ∧ isEnd b = false

def Ends (rest : Text) : Prop := ∀ b ∈ rest.head?, isEnd b = true

def Closes (b : UInt8) : Prop := b = closeBracket ∨ b = closeBrace

def skip (s : Text) : Text := s.dropWhile isSpace

theorem Space.nil : Space [] := fun _ h => absurd h List.not_mem_nil

theorem isSpace_of_isEnd {b : UInt8} (h : isEnd b = false) : isSpace b = false := by
  simp only [isEnd, Bool.or_eq_false_iff] at h
  exact h.1.1.1

theorem isSpace_cases {b : UInt8} (h : isSpace b = true) : b = 32 ∨ b = 9 ∨ b = 10 ∨ b = 13 := by
  simpa [isSpace, or_assoc] using h

theorem isEnd_cases {b : UInt8} (h : isEnd b = true) :
    b ∈ [32, 9, 10, 13, comma, closeBracket, closeBrace] := by
  simpa [isEnd, isSpace, or_assoc] using h

/-- What is false of each byte that ends a word. -/
theorem eq_false_of_isEnd {p : UInt8 → Bool} {b : UInt8}
    (hAll : [32, 9, 10, 13, comma, closeBracket, closeBrace].all (fun c => !p c) = true)
    (h : isEnd b = true) : p b = false := by
  simpa using List.all_eq_true.mp hAll b (isEnd_cases h)

theorem isNumeral_of_isEnd {b : UInt8} (h : isEnd b = true) : isNumeral b = false :=
  eq_false_of_isEnd rfl h

theorem Closes.isEnd {b : UInt8} (h : Closes b) : isEnd b = true := by
  rcases h with rfl | rfl <;> rfl

theorem Closes.isSpace {b : UInt8} (h : Closes b) : isSpace b = false := by
  rcases h with rfl | rfl <;> rfl

theorem Closes.ne_comma {b : UInt8} (h : Closes b) : b ≠ comma := by
  rcases h with rfl | rfl <;> decide

theorem exists_skip (s : Text) : ∃ w, Space w ∧ s = w ++ skip s := by
  refine ⟨s.takeWhile isSpace, ?_, (List.takeWhile_append_dropWhile).symm⟩
  intro b hb
  exact List.mem_takeWhile_imp hb

theorem skip_append {w : Text} (h : Space w) (s : Text) : skip (w ++ s) = skip s :=
  List.dropWhile_append_of_pos h

theorem skip_space {w : Text} (h : Space w) : skip w = [] := List.dropWhile_eq_nil_iff.mpr h

theorem skip_cons {b : UInt8} (h : isSpace b = false) (s : Text) : skip (b :: s) = b :: s := by
  simp [skip, h]

theorem Starts.skip {t : Text} (h : Starts t) (s : Text) : skip (t ++ s) = t ++ s := by
  obtain ⟨b, t, rfl, hb⟩ := h
  exact skip_cons (isSpace_of_isEnd hb) _

theorem Starts.length_pos {t : Text} (h : Starts t) : 0 < t.length := by
  obtain ⟨b, t, rfl, -⟩ := h
  exact Nat.succ_pos _

theorem Ends.nil : Ends [] := fun _ h => by cases h

theorem Ends.cons {b : UInt8} (h : isEnd b = true) (s : Text) : Ends (b :: s) := by
  intro c hc
  cases hc
  exact h

theorem Ends.space {w s : Text} (hw : Space w) (hs : Ends s) : Ends (w ++ s) := by
  cases w with
  | nil => exact hs
  | cons b w =>
    have hb : isSpace b = true := hw b List.mem_cons_self
    exact Ends.cons (by simp [isEnd, hb]) _

/-- A run of bytes of a class that no ending byte belongs to is cut off whole. -/
theorem Ends.span {p : UInt8 → Bool} (hp : ∀ b, isEnd b = true → p b = false) {t rest : Text}
    (ht : ∀ b ∈ t, p b = true) (hEnds : Ends rest) :
    (t ++ rest).takeWhile p = t ∧ (t ++ rest).dropWhile p = rest := by
  rw [List.takeWhile_append_of_pos ht, List.dropWhile_append_of_pos ht]
  cases rest with
  | nil => simp
  | cons b rest => simp [hp b (hEnds b rfl)]

end Characters

section Scalars

/-- What stands between the quotes of a string. -/
inductive Body : Text → Prop where
  | nil : Body []
  | plain {b : UInt8} {t : Text} : isPlain b = true → Body t → Body (b :: t)
  | escape {e : UInt8} {t : Text} : isEscape e = true → Body t → Body (backslash :: e :: t)
  | unicode {h₁ h₂ h₃ h₄ : UInt8} {t : Text} : [h₁, h₂, h₃, h₄].all isHex = true → Body t →
      Body (backslash :: letterU :: h₁ :: h₂ :: h₃ :: h₄ :: t)

def body : Text → Option (Text × Text)
  | [] => none
  | b :: s =>
    if b = quote then some ([], s)
    else if b = backslash then
      match s with
      | [] => none
      | e :: s =>
        if isEscape e then (body s).map fun r => (b :: e :: r.1, r.2)
        else if e = letterU then
          match s with
          | h₁ :: h₂ :: h₃ :: h₄ :: s =>
            if [h₁, h₂, h₃, h₄].all isHex then
              (body s).map fun r => (b :: e :: h₁ :: h₂ :: h₃ :: h₄ :: r.1, r.2)
            else none
          | _ => none
        else none
    else if isPlain b then (body s).map fun r => (b :: r.1, r.2)
    else none

def isExponent : Text → Bool
  | [] => true
  | e :: s =>
    let s := if s.head? = some 43 || s.head? = some minus then s.tail else s
    (e = 69 || e = 101) && s ≠ [] && s.all isDigit

def isFraction : Text → Bool
  | [] => true
  | b :: s =>
    if b = 46 then s.takeWhile isDigit ≠ [] && isExponent (s.dropWhile isDigit)
    else isExponent (b :: s)

/-- An optional sign, digits without a leading zero, a fraction and an exponent. -/
def isNumber (t : Text) : Bool :=
  let s := if t.head? = some minus then t.tail else t
  let whole := s.takeWhile isDigit
  t.all isNumeral && (whole = [48] || (whole ≠ [] && whole.head? ≠ some 48)) &&
    isFraction (s.dropWhile isDigit)

theorem body_sound {s t rest : Text} (h : body s = some (t, rest)) :
    s = t ++ quote :: rest ∧ Body t := by
  fun_induction body s generalizing t with
  | case1 | case3 | case6 | case7 | case8 | case10 => cases h
  | case2 s => cases h; exact ⟨rfl, .nil⟩
  | case4 e s hEscape _ ih =>
    obtain ⟨r, hr, hEq⟩ := Option.map_eq_some_iff.mp h
    cases hEq
    obtain ⟨rfl, hBody⟩ := ih hr
    exact ⟨rfl, .escape hEscape hBody⟩
  | case5 h₁ h₂ h₃ h₄ s hHex _ _ ih =>
    obtain ⟨r, hr, hEq⟩ := Option.map_eq_some_iff.mp h
    cases hEq
    obtain ⟨rfl, hBody⟩ := ih hr
    exact ⟨rfl, .unicode hHex hBody⟩
  | case9 b s _ _ hPlain ih =>
    obtain ⟨r, hr, hEq⟩ := Option.map_eq_some_iff.mp h
    cases hEq
    obtain ⟨rfl, hBody⟩ := ih hr
    exact ⟨rfl, .plain hPlain hBody⟩

theorem body_complete {t : Text} (h : Body t) (rest : Text) :
    body (t ++ quote :: rest) = some (t, rest) := by
  induction h with
  | nil =>
    rw [List.nil_append, body.eq_def]
    rfl
  | @plain b t hPlain _ ih =>
    have hb : (32 ≤ b ∧ b ≠ quote) ∧ b ≠ backslash := by simpa [isPlain] using hPlain
    rw [List.cons_append, body.eq_def]
    simp only [if_neg hb.1.2, if_neg hb.2, if_pos hPlain, ih, Option.map_some]
  | @escape e t hEscape _ ih =>
    have hNe : backslash ≠ quote := by decide
    rw [List.cons_append, List.cons_append, body.eq_def]
    simp only [if_neg hNe, hEscape, if_true, ih, Option.map_some]
  | @unicode h₁ h₂ h₃ h₄ t hHex _ ih =>
    have hNe : backslash ≠ quote := by decide
    have hEscape : isEscape letterU = false := rfl
    simp only [List.cons_append]
    rw [body.eq_def]
    simp only [if_neg hNe, hEscape, Bool.false_eq_true, if_false, if_true, hHex, ih, Option.map_some]

theorem isNumber_numeral {t : Text} (h : isNumber t = true) : ∀ b ∈ t, isNumeral b = true := by
  simp only [isNumber, Bool.and_eq_true] at h
  exact List.all_eq_true.mp h.1.1

theorem isNumber_head {t : Text} (h : isNumber t = true) :
    ∃ b s, t = b :: s ∧ (b = minus ∨ isDigit b = true) := by
  cases t with
  | nil => cases h
  | cons b s =>
    refine ⟨b, s, rfl, ?_⟩
    by_cases hMinus : b = minus
    · exact .inl hMinus
    · right
      by_contra hDigit
      simp [isNumber, hMinus, hDigit] at h

end Scalars

section Lists

variable {α : Type} (read : Text → Option (α × Text)) (P : α → Text → Prop)

/-- Elements with commas between them. No space stands before the first one. -/
inductive Listed : List α → Text → Prop where
  | one {x : α} {v w : Text} : P x v → Space w → Listed [x] (v ++ w)
  | cons {x : α} {xs : List α} {v w w' t : Text} : P x v → Space w → Space w' → Listed xs t →
      Listed (x :: xs) (v ++ (w ++ comma :: (w' ++ t)))

def Enclosed (o c : UInt8) (xs : List α) (t : Text) : Prop :=
  ∃ w s, t = o :: (w ++ (s ++ [c])) ∧ Space w ∧ (xs = [] ∧ s = [] ∨ Listed P xs s)

def listed (close : UInt8) : Nat → Text → Option (List α × Text)
  | 0, _ => none
  | n + 1, s =>
    (read s).bind fun x =>
      match skip x.2 with
      | [] => none
      | b :: s =>
        if b = comma then (listed close n (skip s)).map fun xs => (x.1 :: xs.1, xs.2)
        else if b = close then some ([x.1], s)
        else none

/-- What follows an opening bracket, up to the closing one. -/
def enclosed (close : UInt8) (s : Text) : Option (List α × Text) :=
  match skip s with
  | [] => none
  | b :: t => if b = close then some ([], t) else listed read close s.length (b :: t)

def Sound : Prop := ∀ s x rest, read s = some (x, rest) → ∃ v, s = v ++ rest ∧ P x v

def Complete (k : Nat) : Prop :=
  ∀ x v rest, P x v → v.length ≤ k → Ends rest → read (v ++ rest) = some (x, rest)

variable {read P}

theorem listed_sound (hRead : Sound read P) {close : UInt8} {n : Nat} {s rest : Text} {xs : List α}
    (h : listed read close n s = some (xs, rest)) :
    ∃ t, s = t ++ close :: rest ∧ Listed P xs t := by
  induction n generalizing s xs with
  | zero => cases h
  | succ n ih =>
    obtain ⟨⟨x, s'⟩, hx, hRest⟩ := Option.bind_eq_some_iff.mp h
    obtain ⟨v, rfl, hv⟩ := hRead _ _ _ hx
    obtain ⟨w, hw, hs'⟩ := exists_skip s'
    simp only at hRest
    cases hSkip : skip s' with
    | nil => rw [hSkip] at hRest; cases hRest
    | cons b r =>
      rw [hSkip] at hRest hs'
      simp only at hRest
      split_ifs at hRest with hComma hClose
      · obtain ⟨⟨ys, rest'⟩, hys, hEq⟩ := Option.map_eq_some_iff.mp hRest
        cases hEq
        obtain ⟨w', hw', hr⟩ := exists_skip r
        obtain ⟨t, ht, hListed⟩ := ih hys
        refine ⟨_, ?_, .cons hv hw hw' hListed⟩
        rw [hs', hr, ht, hComma]
        simp only [List.append_assoc, List.cons_append]
      · cases hRest
        refine ⟨_, ?_, .one hv hw⟩
        rw [hs', hClose, List.append_assoc]

theorem enclosed_sound (hRead : Sound read P) {o c : UInt8} {s rest : Text} {xs : List α}
    (h : enclosed read c s = some (xs, rest)) :
    ∃ t, o :: s = t ++ rest ∧ Enclosed P o c xs t := by
  obtain ⟨w, hw, hs⟩ := exists_skip s
  unfold enclosed at h
  generalize s.length = k at h
  generalize skip s = r at h hs
  subst hs
  cases r with
  | nil => cases h
  | cons b t =>
    simp only at h
    split_ifs at h with hClose
    · cases h
      refine ⟨_, ?_, w, [], rfl, hw, .inl ⟨rfl, rfl⟩⟩
      simp [hClose]
    · obtain ⟨t, ht, hListed⟩ := listed_sound hRead h
      refine ⟨_, ?_, w, t, rfl, hw, .inr hListed⟩
      simp [ht]

theorem Listed.length_le {xs : List α} {t : Text} (hStarts : ∀ x v, P x v → Starts v)
    (h : Listed P xs t) : xs.length ≤ t.length := by
  induction h with
  | one hv _ =>
    have hPos := (hStarts _ _ hv).length_pos
    simp only [List.length_singleton, List.length_append]
    omega
  | cons _ _ _ _ ih =>
    simp only [List.length_cons, List.length_append]
    omega

theorem Listed.starts {xs : List α} {t : Text} (hStarts : ∀ x v, P x v → Starts v)
    (h : Listed P xs t) : Starts t := by
  cases h with
  | one hv _ | cons hv _ _ _ =>
    obtain ⟨b, s, rfl, hb⟩ := hStarts _ _ hv
    exact ⟨b, _, rfl, hb⟩

theorem listed_complete {k : Nat} (hRead : Complete read P k) (hStarts : ∀ x v, P x v → Starts v)
    {close : UInt8} (hClose : Closes close) {xs : List α} {t : Text} (h : Listed P xs t)
    (hk : t.length ≤ k) {n : Nat} (hn : xs.length ≤ n) (rest : Text) :
    listed read close n (t ++ close :: rest) = some (xs, rest) := by
  induction h generalizing n with
  | @one x v w hv hw =>
    obtain ⟨n, rfl⟩ : ∃ m, n = m + 1 := ⟨n - 1, by simp only [List.length_singleton] at hn; omega⟩
    have hEnds : Ends (w ++ close :: rest) := .space hw (.cons hClose.isEnd _)
    have hx := hRead x v _ hv (by simp only [List.length_append] at hk; omega) hEnds
    rw [List.append_assoc, listed, hx]
    simp only [Option.bind_some, skip_append hw, skip_cons hClose.isSpace, if_neg hClose.ne_comma,
      if_true]
  | @cons x xs v w w' t hv hw hw' hListed ih =>
    obtain ⟨n, rfl⟩ : ∃ m, n = m + 1 := ⟨n - 1, by simp only [List.length_cons] at hn; omega⟩
    simp only [List.length_append, List.length_cons] at hk hn
    have hEnds : Ends (w ++ comma :: (w' ++ (t ++ close :: rest))) := .space hw (.cons rfl _)
    have hx := hRead x v _ hv (by omega) hEnds
    have hRest := ih (by omega) (n := n) (by omega)
    simp only [List.append_assoc, List.cons_append]
    rw [listed, hx]
    have hComma : isSpace comma = false := rfl
    simp only [Option.bind_some, skip_append hw, skip_cons hComma, if_true, skip_append hw',
      (hListed.starts hStarts).skip, hRest, Option.map_some]

theorem enclosed_complete {k : Nat} (hRead : Complete read P k)
    (hStarts : ∀ x v, P x v → Starts v) {o c : UInt8} (hClose : Closes c) {xs : List α} {t : Text}
    (h : Enclosed P o c xs t) (hk : t.length ≤ k + 1) (rest : Text) :
    ∃ s, t = o :: s ∧ enclosed read c (s ++ rest) = some (xs, rest) := by
  obtain ⟨w, s, rfl, hw, hList⟩ := h
  refine ⟨_, rfl, ?_⟩
  simp only [List.length_append, List.length_cons] at hk
  rcases hList with ⟨rfl, rfl⟩ | hListed
  · simp only [enclosed, List.append_assoc, skip_append hw, List.nil_append, List.cons_append,
      skip_cons hClose.isSpace, if_true]
  · obtain ⟨b, s', rfl, hb⟩ := hListed.starts hStarts
    have hne : b ≠ c := by
      rintro rfl
      rw [hClose.isEnd] at hb
      cases hb
    have hLength := hListed.length_le hStarts
    have hRest := listed_complete hRead hStarts hClose hListed (by omega)
      (n := (w ++ (b :: s' ++ [c]) ++ rest).length)
      (by simp only [List.length_append]; omega) rest
    simp only [enclosed, List.append_assoc, List.cons_append, skip_append hw,
      skip_cons (isSpace_of_isEnd hb), if_neg hne, List.nil_append] at hRest ⊢
    exact hRest

end Lists

section Values

def Member (P : Value → Text → Prop) (m : Text × Value) (t : Text) : Prop :=
  ∃ w w' v, t = quote :: (m.1 ++ quote :: (w ++ colon :: (w' ++ v))) ∧ Body m.1 ∧ Space w ∧
    Space w' ∧ P m.2 v

def Spells : Nat → Value → Text → Prop
  | 0, _, _ => False
  | _ + 1, .null, t => t = nullWord
  | _ + 1, .bool b, t => t = boolWord b
  | _ + 1, .num d, t => t = d ∧ isNumber d = true
  | _ + 1, .str s, t => t = quote :: (s ++ [quote]) ∧ Body s
  | n + 1, .arr items, t => Enclosed (Spells n) openBracket closeBracket items t
  | n + 1, .obj members, t => Enclosed (Member (Spells n)) openBrace closeBrace members t

def IsText (v : Value) (p : Text) : Prop :=
  ∃ n w t w', p = w ++ (t ++ w') ∧ Space w ∧ Space w' ∧ Spells n v t

def number (s : Text) : Option (Value × Text) :=
  let d := s.takeWhile isNumeral
  if isNumber d then some (.num d, s.dropWhile isNumeral) else none

def word (v : Value) (w s : Text) : Option (Value × Text) :=
  if s.take w.length = w then some (v, s.drop w.length) else none

def member (read : Text → Option (Value × Text)) : Text → Option ((Text × Value) × Text)
  | [] => none
  | b :: s =>
    if b = quote then
      (body s).bind fun key =>
        match skip key.2 with
        | [] => none
        | c :: s => if c = colon then (read (skip s)).map fun v => ((key.1, v.1), v.2) else none
    else none

def value : Nat → Text → Option (Value × Text)
  | 0, _ => none
  | _ + 1, [] => none
  | n + 1, b :: s =>
    if b = quote then (body s).map fun r => (.str r.1, r.2)
    else if b = openBracket then (enclosed (value n) closeBracket s).map fun r => (.arr r.1, r.2)
    else if b = openBrace then
      (enclosed (member (value n)) closeBrace s).map fun r => (.obj r.1, r.2)
    else if b = minus || isDigit b then number (b :: s)
    else if b = 116 then word (.bool true) (boolWord true) (b :: s)
    else if b = 102 then word (.bool false) (boolWord false) (b :: s)
    else word .null nullWord (b :: s)

def parse (p : Text) : Option Value :=
  (value p.length (skip p)).bind fun r => if skip r.2 = [] then some r.1 else none

theorem member_sound {read : Text → Option (Value × Text)} {P : Value → Text → Prop}
    (hRead : Sound read P) : Sound (member read) (Member P) := by
  intro s m rest h
  cases s with
  | nil => cases h
  | cons b s =>
    simp only [member] at h
    split_ifs at h with hQuote
    obtain ⟨⟨key, s'⟩, hKey, hRest⟩ := Option.bind_eq_some_iff.mp h
    obtain ⟨rfl, hBody⟩ := body_sound hKey
    obtain ⟨w, hw, hs'⟩ := exists_skip s'
    simp only at hRest
    cases hSkip : skip s' with
    | nil => rw [hSkip] at hRest; cases hRest
    | cons c r =>
      rw [hSkip] at hRest hs'
      simp only at hRest
      split_ifs at hRest with hColon
      obtain ⟨⟨v, rest'⟩, hv, hEq⟩ := Option.map_eq_some_iff.mp hRest
      cases hEq
      obtain ⟨w', hw', hr⟩ := exists_skip r
      obtain ⟨t, ht, hP⟩ := hRead _ _ _ hv
      refine ⟨_, ?_, w, w', t, rfl, hBody, hw, hw', hP⟩
      rw [hs', hr, ht, hQuote, hColon]
      simp only [List.append_assoc, List.cons_append]

theorem member_starts {P : Value → Text → Prop} {m : Text × Value} {t : Text} (h : Member P m t) :
    Starts t := by
  obtain ⟨w, w', v, rfl, -⟩ := h
  exact ⟨quote, _, rfl, rfl⟩

theorem member_complete {read : Text → Option (Value × Text)} {P : Value → Text → Prop} {k : Nat}
    (hRead : Complete read P k) (hStarts : ∀ v t, P v t → Starts t) :
    Complete (member read) (Member P) k := by
  rintro ⟨key, v⟩ t rest ⟨w, w', s, rfl, hBody, hw, hw', hP⟩ hk hEnds
  simp only [List.length_cons, List.length_append] at hk
  have hv := hRead v s rest hP (by omega) hEnds
  have hColon : isSpace colon = false := rfl
  simp only [List.cons_append, List.append_assoc, member, if_true, body_complete hBody,
    Option.bind_some, skip_append hw, skip_cons hColon, skip_append hw', (hStarts v s hP).skip, hv,
    Option.map_some]

theorem number_sound {s rest : Text} {v : Value} (h : number s = some (v, rest)) :
    ∃ t, s = t ++ rest ∧ v = .num t ∧ isNumber t = true := by
  simp only [number] at h
  split_ifs at h with hNumber
  cases h
  exact ⟨_, (List.takeWhile_append_dropWhile).symm, rfl, hNumber⟩

theorem number_complete {t rest : Text} (h : isNumber t = true) (hEnds : Ends rest) :
    number (t ++ rest) = some (.num t, rest) := by
  obtain ⟨hTake, hDrop⟩ := hEnds.span (fun _ => isNumeral_of_isEnd) (isNumber_numeral h)
  simp only [number, hTake, hDrop, h, if_true]

theorem word_sound {v v' : Value} {w s rest : Text} (h : word v w s = some (v', rest)) :
    s = w ++ rest ∧ v' = v := by
  simp only [word] at h
  split_ifs at h with hTake
  cases h
  refine ⟨?_, rfl⟩
  conv_lhs => rw [← List.take_append_drop w.length s, hTake]

theorem word_complete (v : Value) (w rest : Text) : word v w (w ++ rest) = some (v, rest) := by
  simp [word]

theorem Spells.starts {n : Nat} {v : Value} {t : Text} (h : Spells n v t) : Starts t := by
  cases n with
  | zero => cases h
  | succ n =>
    cases v with
    | null => cases h; exact ⟨_, _, rfl, rfl⟩
    | bool b => cases h; cases b <;> exact ⟨_, _, rfl, rfl⟩
    | num d =>
      obtain ⟨rfl, hNumber⟩ := h
      obtain ⟨b, s, rfl, hb⟩ := isNumber_head hNumber
      have hNumeral := isNumber_numeral hNumber b List.mem_cons_self
      refine ⟨b, s, rfl, ?_⟩
      by_contra hEnd
      rw [isNumeral_of_isEnd (by simpa using hEnd)] at hNumeral
      cases hNumeral
    | str s => obtain ⟨rfl, -⟩ := h; exact ⟨_, _, rfl, rfl⟩
    | arr items => obtain ⟨w, s, rfl, -⟩ := h; exact ⟨_, _, rfl, rfl⟩
    | obj members => obtain ⟨w, s, rfl, -⟩ := h; exact ⟨_, _, rfl, rfl⟩

theorem value_sound (n : Nat) : Sound (value n) (Spells n) := by
  induction n with
  | zero => intro s v rest h; cases h
  | succ n ih =>
    intro s v rest h
    cases s with
    | nil => cases h
    | cons b s =>
      simp only [value] at h
      split_ifs at h with hQuote hBracket hBrace hNumber hTrue hFalse
      · obtain ⟨⟨t, rest'⟩, ht, hEq⟩ := Option.map_eq_some_iff.mp h
        cases hEq
        obtain ⟨rfl, hBody⟩ := body_sound ht
        refine ⟨_, ?_, rfl, hBody⟩
        simp [hQuote]
      · obtain ⟨⟨xs, rest'⟩, hxs, hEq⟩ := Option.map_eq_some_iff.mp h
        cases hEq
        rw [hBracket]
        exact enclosed_sound ih hxs
      · obtain ⟨⟨xs, rest'⟩, hxs, hEq⟩ := Option.map_eq_some_iff.mp h
        cases hEq
        rw [hBrace]
        exact enclosed_sound (member_sound ih) hxs
      · obtain ⟨t, ht, rfl, hIs⟩ := number_sound h
        exact ⟨t, ht, rfl, hIs⟩
      · obtain ⟨ht, rfl⟩ := word_sound h
        exact ⟨_, ht, rfl⟩
      · obtain ⟨ht, rfl⟩ := word_sound h
        exact ⟨_, ht, rfl⟩
      · obtain ⟨ht, rfl⟩ := word_sound h
        exact ⟨_, ht, rfl⟩

/-- A text is read back from a fuel of its own length, since each level of
nesting takes a byte. -/
theorem value_complete {n : Nat} (k : Nat) : Complete (value k) (Spells n) k := by
  induction n generalizing k with
  | zero => intro v t rest h; cases h
  | succ n ih =>
    intro v t rest h hk hEnds
    obtain ⟨k, rfl⟩ : ∃ m, k = m + 1 := ⟨k - 1, by have := h.starts.length_pos; omega⟩
    cases v with
    | null => cases h; exact word_complete .null nullWord rest
    | bool b =>
      cases h
      cases b with
      | true => exact word_complete (.bool true) (boolWord true) rest
      | false => exact word_complete (.bool false) (boolWord false) rest
    | num d =>
      obtain ⟨rfl, hNumber⟩ := h
      have hRead := number_complete hNumber hEnds
      obtain ⟨b, s, rfl, hb⟩ := isNumber_head hNumber
      have hNe : b ≠ quote ∧ b ≠ openBracket ∧ b ≠ openBrace := by
        rcases hb with rfl | hb
        · decide
        · refine ⟨?_, ?_, ?_⟩ <;> rintro rfl <;> cases hb
      have hFirst : (decide (b = minus) || isDigit b) = true := by simpa using hb
      rw [List.cons_append, value, if_neg hNe.1, if_neg hNe.2.1, if_neg hNe.2.2, if_pos hFirst]
      exact hRead
    | str s =>
      obtain ⟨rfl, hBody⟩ := h
      rw [List.cons_append, value, if_pos rfl, List.append_assoc, List.singleton_append,
        body_complete hBody]
      rfl
    | arr items =>
      obtain ⟨s, rfl, hRead⟩ :=
        enclosed_complete (ih k) (fun _ _ => Spells.starts) (.inl rfl) h hk rest
      rw [List.cons_append, value, if_neg (by decide), if_pos rfl, hRead]
      rfl
    | obj members =>
      obtain ⟨s, rfl, hRead⟩ := enclosed_complete (member_complete (ih k) fun _ _ => Spells.starts)
        (fun _ _ => member_starts) (.inr rfl) h hk rest
      rw [List.cons_append, value, if_neg (by decide), if_neg (by decide), if_pos rfl, hRead]
      rfl

theorem parse_eq_some {p : Text} {v : Value} : parse p = some v ↔ IsText v p := by
  constructor
  · intro h
    obtain ⟨⟨v', rest⟩, hv, h⟩ := Option.bind_eq_some_iff.mp h
    simp only at h
    split_ifs at h with hRest
    cases h
    obtain ⟨w, hw, hp⟩ := exists_skip p
    obtain ⟨t, ht, hSpells⟩ := value_sound _ _ _ _ hv
    obtain ⟨w', hw', hRestEq⟩ := exists_skip rest
    rw [hRest, List.append_nil] at hRestEq
    refine ⟨_, w, t, rest, ?_, hw, hRestEq ▸ hw', hSpells⟩
    rw [← ht, ← hp]
  · rintro ⟨n, w, t, w', rfl, hw, hw', hSpells⟩
    have hEnds : Ends w' := by simpa using Ends.space hw' Ends.nil
    have hLength : t.length ≤ (w ++ (t ++ w')).length := by
      simp only [List.length_append]
      omega
    have hRead := value_complete _ v t w' hSpells hLength hEnds
    rw [parse, skip_append hw, hSpells.starts.skip, hRead]
    simp [skip_space hw']

theorem Spells.isText {n : Nat} {v : Value} {t : Text} (h : Spells n v t) : IsText v t :=
  ⟨n, [], t, [], by simp, .nil, .nil, h⟩

end Values

section Printing

mutual

/-- The text of a value without any space. -/
def print : Value → Text
  | .null => nullWord
  | .bool b => boolWord b
  | .num d => d
  | .str s => quote :: (s ++ [quote])
  | .arr items => openBracket :: (printItems items ++ [closeBracket])
  | .obj members => openBrace :: (printMembers members ++ [closeBrace])

def printItems : List Value → Text
  | [] => []
  | [v] => print v
  | v :: w :: vs => print v ++ comma :: printItems (w :: vs)

def printMembers : List (Text × Value) → Text
  | [] => []
  | [(key, v)] => quote :: (key ++ quote :: colon :: print v)
  | (key, v) :: m :: ms =>
    quote :: (key ++ quote :: colon :: (print v ++ comma :: printMembers (m :: ms)))

end

mutual

def numbers : Value → List Text
  | .num d => [d]
  | .arr items => numbersItems items
  | .obj members => numbersMembers members
  | .null | .bool _ | .str _ => []

def numbersItems : List Value → List Text
  | [] => []
  | v :: vs => numbers v ++ numbersItems vs

def numbersMembers : List (Text × Value) → List Text
  | [] => []
  | (_, v) :: ms => numbers v ++ numbersMembers ms

end

theorem member_print {n : Nat} {key : Text} {v : Value} (hKey : Body key) (h : Spells n v (print v)) :
    Member (Spells n) (key, v) (quote :: (key ++ quote :: colon :: print v)) :=
  ⟨[], [], print v, by simp, hKey, .nil, .nil, h⟩

theorem listed_printMembers {n : Nat} {m : Text × Value} {ms : List (Text × Value)}
    (h : ∀ m' ∈ m :: ms, Body m'.1 ∧ Spells n m'.2 (print m'.2)) :
    Listed (Member (Spells n)) (m :: ms) (printMembers (m :: ms)) := by
  induction ms generalizing m with
  | nil =>
    have hm := h m List.mem_cons_self
    simpa [printMembers] using Listed.one (member_print hm.1 hm.2) Space.nil
  | cons m' ms ih =>
    have hm := h m List.mem_cons_self
    have hRest := ih fun m'' hm'' => h m'' (List.mem_cons_of_mem m hm'')
    simpa [printMembers] using Listed.cons (member_print hm.1 hm.2) Space.nil Space.nil hRest

theorem spells_print_obj {n : Nat} {ms : List (Text × Value)}
    (h : ∀ m ∈ ms, Body m.1 ∧ Spells n m.2 (print m.2)) :
    Spells (n + 1) (.obj ms) (print (.obj ms)) := by
  cases ms with
  | nil => exact ⟨[], [], rfl, .nil, .inl ⟨rfl, rfl⟩⟩
  | cons m ms =>
    refine ⟨[], _, ?_, .nil, .inr (listed_printMembers h)⟩
    simp [print]

end Printing

end Sara.Lib.Json
