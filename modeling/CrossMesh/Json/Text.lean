import CrossMesh.Json.Basic

/-!
# JSON strings

Two readers of a string, from behind its opening quote: `readText` decodes it and refuses a surrogate without its
partner, `skipText` only checks its form and lets such a surrogate pass.
-/

namespace CrossMesh

namespace Json

def hexDigit? (c : Char) : Option Nat :=
  if '0' ≤ c ∧ c ≤ '9' then some (c.toNat - 48)
  else if 'a' ≤ c ∧ c ≤ 'f' then some (c.toNat - 87)
  else if 'A' ≤ c ∧ c ≤ 'F' then some (c.toNat - 55)
  else none

def hexNumber? (digits : List Char) : Option Nat :=
  digits.foldl (fun n c => n.bind fun n => (hexDigit? c).map (16 * n + ·)) (some 0)

/-- The number of bytes of a text. -/
def byteCount (s : List Char) : Nat := s.foldr (fun c n => c.utf8Size + n) 0

/-- Reads four hexadecimal digits.  A text with less than four bytes left ends too early, whatever they are. -/
def readHex (s : List Char) : Except ReadError (Nat × List Char) :=
  if byteCount (s.take 4) < 4 then .error .ended
  else
    match s with
    | a :: b :: c :: d :: r =>
      match hexNumber? [a, b, c, d] with
      | some n => .ok (n, r)
      | none => .error .malformed
    | _ => .error .malformed

theorem length_readHex {s r : List Char} {n : Nat} (h : readHex s = .ok (n, r)) : r.length < s.length := by
  unfold readHex at h
  split at h
  · exact absurd h (by simp)
  · split at h
    · split at h
      · obtain ⟨-, rfl⟩ := Prod.mk.inj (Except.ok.inj h)
        simp only [List.length_cons]
        omega
      · exact absurd h (by simp)
    · exact absurd h (by simp)

/-- Whether a number is the first half of a surrogate pair. -/
def isLeading (n : Nat) : Bool := 0xd800 ≤ n && n ≤ 0xdbff

/-- Whether a number is the second half of a surrogate pair. -/
def isTrailing (n : Nat) : Bool := 0xdc00 ≤ n && n ≤ 0xdfff

/-- The character of a surrogate pair. -/
def pairedChar (leading trailing : Nat) : Char :=
  Char.ofNat (0x10000 + (leading - 0xd800) * 0x400 + (trailing - 0xdc00))

/-- Reads a character written by its number, from behind the `u`. -/
def readCode (s : List Char) : Except ReadError (Char × List Char) :=
  match readHex s with
  | .error e => .error e
  | .ok (n, r) =>
    if isTrailing n then .error .malformed
    else if isLeading n then
      match readWord ['\\', 'u'] r with
      | .error e => .error e
      | .ok r =>
        match readHex r with
        | .error e => .error e
        | .ok (m, r) => if isTrailing m then .ok (pairedChar n m, r) else .error .malformed
    else .ok (Char.ofNat n, r)

theorem length_readCode {s r : List Char} {c : Char} (h : readCode s = .ok (c, r)) : r.length < s.length := by
  unfold readCode at h
  split at h
  · exact absurd h (by simp)
  · rename_i n r₁ h₁
    have l₁ := length_readHex h₁
    split at h
    · exact absurd h (by simp)
    · split at h
      · split at h
        · exact absurd h (by simp)
        · rename_i r₂ h₂
          have l₂ := congrArg List.length (eq_append_of_readWord h₂)
          split at h
          · exact absurd h (by simp)
          · rename_i m r₃ h₃
            have l₃ := length_readHex h₃
            split at h
            · obtain ⟨-, rfl⟩ := Prod.mk.inj (Except.ok.inj h)
              simp at l₂
              omega
            · exact absurd h (by simp)
      · obtain ⟨-, rfl⟩ := Prod.mk.inj (Except.ok.inj h)
        exact l₁

/-- The character that a letter stands for behind a backslash. -/
def escaped? (c : Char) : Option Char :=
  match c with
  | '"' => some '"'
  | '\\' => some '\\'
  | '/' => some '/'
  | 'b' => some '\x08'
  | 'f' => some '\x0c'
  | 'n' => some '\n'
  | 'r' => some '\r'
  | 't' => some '\t'
  | _ => none

/-- Reads what stands behind a backslash. -/
def readEscape : List Char → Except ReadError (Char × List Char)
  | [] => .error .ended
  | c :: r =>
    if c = 'u' then readCode r
    else
      match escaped? c with
      | some d => .ok (d, r)
      | none => .error .malformed

theorem length_readEscape {s r : List Char} {c : Char} (h : readEscape s = .ok (c, r)) : r.length < s.length := by
  cases s with
  | nil => exact absurd h (by simp [readEscape])
  | cons d s =>
    simp only [readEscape] at h
    split at h
    · exact Nat.lt_succ_of_lt (length_readCode h)
    · split at h
      · obtain ⟨-, rfl⟩ := Prod.mk.inj (Except.ok.inj h)
        exact Nat.lt_succ_self _
      · exact absurd h (by simp)

/-- Reads past what stands behind a backslash. -/
def skipEscape : List Char → Except ReadError (List Char)
  | [] => .error .ended
  | c :: r =>
    if c = 'u' then (readHex r).map Prod.snd
    else if (escaped? c).isSome then .ok r
    else .error .malformed

theorem length_skipEscape {s r : List Char} (h : skipEscape s = .ok r) : r.length < s.length := by
  cases s with
  | nil => exact absurd h (by simp [skipEscape])
  | cons d s =>
    simp only [skipEscape] at h
    split at h
    · obtain ⟨x, hx, rfl⟩ := map_eq_ok.1 h
      exact Nat.lt_succ_of_lt (length_readHex hx)
    · split at h
      · rw [← Except.ok.inj h]
        exact Nat.lt_succ_self _
      · exact absurd h (by simp)

/-- Reads a string, from behind its opening quote. -/
def readText (s : List Char) : Except ReadError (List Char × List Char) :=
  match s with
  | [] => .error .ended
  | c :: r =>
    if c = '"' then .ok ([], r)
    else if c = '\\' then
      match _ : readEscape r with
      | .error e => .error e
      | .ok (d, r') => (readText r').map fun t => (d :: t.1, t.2)
    else if c < ' ' then .error .malformed
    else (readText r).map fun t => (c :: t.1, t.2)
termination_by s.length
decreasing_by
  · exact Nat.lt_succ_of_lt (length_readEscape ‹_›)
  · exact Nat.lt_succ_self _

theorem length_readText {s r t : List Char} (h : readText s = .ok (t, r)) : r.length < s.length := by
  fun_induction readText s generalizing t with
  | case1 => exact absurd h (by simp)
  | case2 r' =>
    obtain ⟨-, rfl⟩ := Prod.mk.inj (Except.ok.inj h)
    exact Nat.lt_succ_self _
  | case3 => exact absurd h (by simp)
  | case4 r' d r₁ he hq ih =>
    obtain ⟨x, hx, hr⟩ := map_eq_ok.1 h
    obtain ⟨-, rfl⟩ := Prod.mk.inj hr
    exact Nat.lt_succ_of_lt (Nat.lt_trans (ih hx) (length_readEscape he))
  | case5 => exact absurd h (by simp)
  | case6 c r' hq hb hs ih =>
    obtain ⟨x, hx, hr⟩ := map_eq_ok.1 h
    obtain ⟨-, rfl⟩ := Prod.mk.inj hr
    exact Nat.lt_succ_of_lt (ih hx)

/-- Reads past a string, from behind its opening quote. -/
def skipText (s : List Char) : Except ReadError (List Char) :=
  match s with
  | [] => .error .ended
  | c :: r =>
    if c = '"' then .ok r
    else if c = '\\' then
      match _ : skipEscape r with
      | .error e => .error e
      | .ok r' => skipText r'
    else if c < ' ' then .error .malformed
    else skipText r
termination_by s.length
decreasing_by
  · exact Nat.lt_succ_of_lt (length_skipEscape ‹_›)
  · exact Nat.lt_succ_self _

theorem length_skipText {s r : List Char} (h : skipText s = .ok r) : r.length < s.length := by
  fun_induction skipText s with
  | case1 => exact absurd h (by simp)
  | case2 r' =>
    rw [← Except.ok.inj h]
    exact Nat.lt_succ_self _
  | case3 => exact absurd h (by simp)
  | case4 r' r₁ he hq ih => exact Nat.lt_succ_of_lt (Nat.lt_trans (ih h) (length_skipEscape he))
  | case5 => exact absurd h (by simp)
  | case6 c r' hq hb hs ih => exact Nat.lt_succ_of_lt (ih h)

end Json

end CrossMesh
