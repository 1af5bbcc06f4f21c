import CrossMesh.Json.Text

/-!
# Skipping JSON values

`skipValue` reads past a JSON value of any depth and checks its form.  It keeps the brackets that are open in a list,
innermost first: `skipValueIn` reads past the next value and `skipRest` past what stands behind it, until all brackets
are closed.
-/

namespace CrossMesh

namespace Json

/-! ### Numbers -/

/-- Reads past one digit or more. -/
def skipDigits : List Char → Except ReadError (List Char)
  | [] => .error .malformed
  | c :: r => if c.isDigit then .ok (r.dropWhile Char.isDigit) else .error .malformed

/-- Reads past the whole part of a number, in which only a zero alone starts with zero. -/
def skipWhole : List Char → Except ReadError (List Char)
  | [] => .error .malformed
  | c :: r =>
    if c = '0' then
      match r with
      | d :: _ => if d.isDigit then .error .malformed else .ok r
      | [] => .ok r
    else skipDigits (c :: r)

/-- Reads past a fraction, if one comes next. -/
def skipFraction : List Char → Except ReadError (List Char)
  | '.' :: r => skipDigits r
  | s => .ok s

def dropSign : List Char → List Char
  | '+' :: r => r
  | '-' :: r => r
  | s => s

/-- Reads past an exponent, if one comes next. -/
def skipExponent : List Char → Except ReadError (List Char)
  | [] => .ok []
  | c :: r => if c = 'e' ∨ c = 'E' then skipDigits (dropSign r) else .ok (c :: r)

/-- Reads past a number without a sign. -/
def skipNumber (s : List Char) : Except ReadError (List Char) := do
  let s ← skipWhole s
  let s ← skipFraction s
  skipExponent s

private theorem length_skipDigits {s r : List Char} (h : skipDigits s = .ok r) : r.length < s.length := by
  cases s with
  | nil => exact absurd h (by simp [skipDigits])
  | cons c s =>
    simp only [skipDigits] at h
    split at h
    · rw [← Except.ok.inj h]
      exact Nat.lt_succ_of_le (List.dropWhile_sublist Char.isDigit).length_le
    · exact absurd h (by simp)

private theorem length_skipWhole {s r : List Char} (h : skipWhole s = .ok r) : r.length < s.length := by
  cases s with
  | nil => exact absurd h (by simp [skipWhole])
  | cons c s =>
    simp only [skipWhole] at h
    split at h
    · split at h
      · split at h
        · exact absurd h (by simp)
        · rw [← Except.ok.inj h]
          exact Nat.lt_succ_self _
      · rw [← Except.ok.inj h]
        exact Nat.lt_succ_self _
    · exact length_skipDigits h

private theorem length_skipFraction {s r : List Char} (h : skipFraction s = .ok r) : r.length ≤ s.length := by
  unfold skipFraction at h
  split at h
  · exact Nat.le_of_lt (Nat.lt_succ_of_lt (length_skipDigits h))
  · exact Nat.le_of_eq (congrArg List.length (Except.ok.inj h)).symm

private theorem length_dropSign_le (s : List Char) : (dropSign s).length ≤ s.length := by
  unfold dropSign
  split <;> simp

private theorem length_skipExponent {s r : List Char} (h : skipExponent s = .ok r) : r.length ≤ s.length := by
  cases s with
  | nil =>
    exact Nat.le_of_eq (congrArg List.length (Except.ok.inj h)).symm
  | cons c s =>
    simp only [skipExponent] at h
    split at h
    · have := length_skipDigits h
      have := length_dropSign_le s
      simp only [List.length_cons]
      omega
    · exact Nat.le_of_eq (congrArg List.length (Except.ok.inj h)).symm

theorem length_skipNumber {s r : List Char} (h : skipNumber s = .ok r) : r.length < s.length := by
  obtain ⟨s₁, h₁, h⟩ := bind_eq_ok.1 h
  obtain ⟨s₂, h₂, h⟩ := bind_eq_ok.1 h
  have := length_skipWhole h₁
  have := length_skipFraction h₂
  have := length_skipExponent h
  omega

/-! ### Values without parts -/

/-- Reads past a word, a string or a number. -/
def skipScalar : List Char → Except ReadError (List Char)
  | [] => .error .ended
  | c :: r =>
    if c = 'n' then readWord ['u', 'l', 'l'] r
    else if c = 't' then readWord ['r', 'u', 'e'] r
    else if c = 'f' then readWord ['a', 'l', 's', 'e'] r
    else if c = '"' then skipText r
    else if c = '-' then skipNumber r
    else if c.isDigit then skipNumber (c :: r)
    else .error .malformed

theorem length_skipScalar {s r : List Char} (h : skipScalar s = .ok r) : r.length < s.length := by
  cases s with
  | nil => exact absurd h (by simp [skipScalar])
  | cons c s =>
    simp only [skipScalar] at h
    split at h
    · exact Nat.lt_succ_of_le (length_readWord h)
    · split at h
      · exact Nat.lt_succ_of_le (length_readWord h)
      · split at h
        · exact Nat.lt_succ_of_le (length_readWord h)
        · split at h
          · exact Nat.lt_succ_of_lt (length_skipText h)
          · split at h
            · exact Nat.lt_succ_of_lt (length_skipNumber h)
            · split at h
              · exact length_skipNumber h
              · exact absurd h (by simp)

/-! ### Brackets -/

inductive Bracket
  | square
  | curly
  deriving DecidableEq

/-- The bracket that comes next, if one does, and what stands behind it. -/
def opening? : List Char → Option (Bracket × List Char)
  | '[' :: r => some (.square, r)
  | '\x7b' :: r => some (.curly, r)
  | _ => none

def Bracket.closer : Bracket → Char
  | square => ']'
  | curly => '\x7d'

/-- What stands behind the end of the bracket, if that comes next, behind blanks. -/
def closing? (b : Bracket) (s : List Char) : Option (List Char) :=
  match dropBlanks s with
  | c :: r => if c = b.closer then some r else none
  | [] => none

/-- Reads past a key and its colon, where the bracket has keys. -/
def skipKey : Bracket → List Char → Except ReadError (List Char)
  | .square, s => .ok s
  | .curly, s => do
    let s ← readWord ['"'] (dropBlanks s)
    let s ← skipText s
    readColon s

/-- Reads the comma between two items of a bracket, behind blanks. -/
def readComma (s : List Char) : Except ReadError (List Char) := readWord [','] (dropBlanks s)

theorem length_opening? {s r : List Char} {b : Bracket} (h : opening? s = some (b, r)) : r.length < s.length := by
  unfold opening? at h
  split at h
  · obtain ⟨-, rfl⟩ := Prod.mk.inj (Option.some.inj h)
    exact Nat.lt_succ_self _
  · obtain ⟨-, rfl⟩ := Prod.mk.inj (Option.some.inj h)
    exact Nat.lt_succ_self _
  · exact absurd h (by simp)

theorem length_closing? {s r : List Char} {b : Bracket} (h : closing? b s = some r) : r.length < s.length := by
  have hs := length_dropBlanks_le s
  unfold closing? at h
  split at h
  · rename_i c t ht
    split at h
    · obtain rfl := Option.some.inj h
      rw [ht, List.length_cons] at hs
      omega
    · exact absurd h (by simp)
  · exact absurd h (by simp)

theorem length_skipKey {s r : List Char} {b : Bracket} (h : skipKey b s = .ok r) : r.length ≤ s.length := by
  cases b with
  | square =>
    exact Nat.le_of_eq (congrArg List.length (Except.ok.inj h)).symm
  | curly =>
    obtain ⟨s₁, h₁, h⟩ := bind_eq_ok.1 h
    obtain ⟨s₂, h₂, h⟩ := bind_eq_ok.1 h
    have := length_dropBlanks_le s
    have := length_readWord h₁
    have := length_skipText h₂
    have := length_readColon h
    omega

theorem length_readComma {s r : List Char} (h : readComma s = .ok r) : r.length < s.length := by
  have hs := congrArg List.length (eq_append_of_readWord h)
  have := length_dropBlanks_le s
  simp at hs
  omega

mutual

/-- Reads past the next value, and then past what is left of the brackets around it. -/
def skipValueIn (around : List Bracket) (s : List Char) : Except ReadError (List Char) :=
  match _ : opening? (dropBlanks s) with
  | none =>
    match _ : skipScalar (dropBlanks s) with
    | .error e => .error e
    | .ok r => skipRest around r
  | some (b, r) =>
    match _ : closing? b r with
    | some r' => skipRest around r'
    | none =>
      match _ : skipKey b r with
      | .error e => .error e
      | .ok r' => skipValueIn (b :: around) r'
termination_by s.length
decreasing_by
  · have := length_dropBlanks_le s
    have := length_skipScalar ‹_›
    omega
  · have := length_dropBlanks_le s
    have := length_opening? ‹_›
    have := length_closing? ‹_›
    omega
  · have := length_dropBlanks_le s
    have := length_opening? ‹_›
    have := length_skipKey ‹_›
    omega

/-- Reads past what is left of the brackets, from behind an item of the innermost one. -/
def skipRest (around : List Bracket) (s : List Char) : Except ReadError (List Char) :=
  match around with
  | [] => .ok s
  | b :: outer =>
    match _ : closing? b s with
    | some r => skipRest outer r
    | none =>
      match _ : readComma s with
      | .error e => .error e
      | .ok r =>
        match _ : skipKey b r with
        | .error e => .error e
        | .ok r' => skipValueIn (b :: outer) r'
termination_by s.length
decreasing_by
  · exact length_closing? ‹_›
  · have := length_readComma ‹_›
    have := length_skipKey ‹_›
    omega

end

/-- Reads past a value. -/
def skipValue (s : List Char) : Except ReadError (List Char) := skipValueIn [] s

mutual

private theorem length_skipValueIn {around : List Bracket} {s r : List Char} (h : skipValueIn around s = .ok r) :
    r.length < s.length := by
  unfold skipValueIn at h
  have hs := length_dropBlanks_le s
  split at h
  · split at h
    · exact absurd h (by simp)
    · rename_i r₁ h₁
      have := length_skipScalar h₁
      have := length_skipRest h
      omega
  · rename_i b r₁ h₁
    have := length_opening? h₁
    split at h
    · rename_i r₂ h₂
      have := length_closing? h₂
      have := length_skipRest h
      omega
    · split at h
      · exact absurd h (by simp)
      · rename_i r₂ h₂
        have := length_skipKey h₂
        have := length_skipValueIn h
        omega
termination_by s.length

private theorem length_skipRest {around : List Bracket} {s r : List Char} (h : skipRest around s = .ok r) :
    r.length ≤ s.length := by
  unfold skipRest at h
  split at h
  · exact Nat.le_of_eq (congrArg List.length (Except.ok.inj h)).symm
  · split at h
    · rename_i r₁ h₁
      have := length_closing? h₁
      have := length_skipRest h
      omega
    · split at h
      · exact absurd h (by simp)
      · rename_i r₁ h₁
        have := length_readComma h₁
        split at h
        · exact absurd h (by simp)
        · rename_i r₂ h₂
          have := length_skipKey h₂
          have := length_skipValueIn h
          omega
termination_by s.length

end

theorem length_skipValue {s r : List Char} (h : skipValue s = .ok r) : r.length < s.length :=
  length_skipValueIn h

end Json

end CrossMesh
