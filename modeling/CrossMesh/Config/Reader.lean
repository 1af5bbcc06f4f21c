import CrossMesh.Config.Printer
import CrossMesh.Json.Mismatch
import CrossMesh.Json.Skip

/-!
# Reading settings

Settings are a JSON object with the members `comm_stream` and `eager_reverse_channels`, both of which may be missing,
or an array of their values.  A stream is its name, or an object that maps its name to null.  Other members are
skipped.  The text is read once from left to right, so the first thing wrong with it is the one that is reported.
-/

namespace CrossMesh

namespace Config

open Json

/-! ### Values -/

/-- Reads the name of a stream, from behind its opening quote. -/
def readStreamName (s : List Char) : Except ReadError (StreamKind × List Char) := do
  let (name, r) ← readText s
  match StreamKind.ofName? (String.ofList name) with
  | some stream => .ok (stream, r)
  | none => .error (.unknownName (String.ofList name) (StreamKind.all.map StreamKind.name))

/-- Reads a null, behind blanks. -/
def readNull (s : List Char) : Except ReadError (List Char) :=
  match dropBlanks s with
  | 'n' :: r => readWord ['u', 'l', 'l'] r
  | s => .error (mismatch "unit" s)

/-- Reads the only member of an object that names a stream, from behind the opening bracket.  The name is a key here:
anything but a string is malformed, not a value of the wrong type. -/
def readStreamMember (s : List Char) : Except ReadError (StreamKind × List Char) := do
  let r ← readWord ['"'] (dropBlanks s)
  let (stream, r) ← readStreamName r
  let r ← readColon r
  let r ← readNull r
  let r ← readWord ['\x7d'] (dropBlanks r)
  return (stream, r)

/-- Reads a stream, behind blanks. -/
def readStream (s : List Char) : Except ReadError (StreamKind × List Char) :=
  match dropBlanks s with
  | [] => .error .ended
  | '"' :: r => readStreamName r
  | '\x7b' :: r => readStreamMember r
  | _ => .error .malformed

/-- Reads a boolean, behind blanks. -/
def readFlag (s : List Char) : Except ReadError (Bool × List Char) :=
  match dropBlanks s with
  | 't' :: r => (readWord ['r', 'u', 'e'] r).map fun r => (true, r)
  | 'f' :: r => (readWord ['a', 'l', 's', 'e'] r).map fun r => (false, r)
  | s => .error (mismatch "a boolean" s)

private theorem length_readStreamName {s r : List Char} {k : StreamKind} (h : readStreamName s = .ok (k, r)) :
    r.length < s.length := by
  obtain ⟨⟨t, r₁⟩, ht, h⟩ := bind_eq_ok.1 h
  dsimp only at h
  split at h
  · obtain ⟨-, rfl⟩ := Prod.mk.inj (Except.ok.inj h)
    exact length_readText ht
  · exact absurd h (by simp)

private theorem length_readNull {s r : List Char} (h : readNull s = .ok r) : r.length < s.length := by
  have hs := length_dropBlanks_le s
  unfold readNull at h
  split at h
  · rename_i t ht
    have := length_readWord h
    rw [ht, List.length_cons] at hs
    omega
  · exact absurd h (by simp)

private theorem length_readStreamMember {s r : List Char} {k : StreamKind}
    (h : readStreamMember s = .ok (k, r)) : r.length < s.length := by
  obtain ⟨r₁, h₁, h⟩ := bind_eq_ok.1 h
  obtain ⟨⟨_, r₂⟩, h₂, h⟩ := bind_eq_ok.1 h
  obtain ⟨r₃, h₃, h⟩ := bind_eq_ok.1 h
  obtain ⟨r₄, h₄, h⟩ := bind_eq_ok.1 h
  obtain ⟨r₅, h₅, h⟩ := bind_eq_ok.1 h
  obtain ⟨-, rfl⟩ := Prod.mk.inj (Except.ok.inj h)
  have := length_dropBlanks_le s
  have := length_readWord h₁
  have := length_readStreamName h₂
  have := length_readColon h₃
  have := length_readNull h₄
  have := length_dropBlanks_le r₄
  have := length_readWord h₅
  omega

private theorem length_readStream {s r : List Char} {k : StreamKind} (h : readStream s = .ok (k, r)) :
    r.length < s.length := by
  have hs := length_dropBlanks_le s
  unfold readStream at h
  split at h
  · exact absurd h (by simp)
  · rename_i t ht
    rw [ht, List.length_cons] at hs
    have := length_readStreamName h
    omega
  · rename_i t ht
    rw [ht, List.length_cons] at hs
    have := length_readStreamMember h
    omega
  · exact absurd h (by simp)

private theorem length_readFlag {s r : List Char} {b : Bool} (h : readFlag s = .ok (b, r)) :
    r.length < s.length := by
  have hs := length_dropBlanks_le s
  unfold readFlag at h
  split at h
  · rename_i t ht
    rw [ht, List.length_cons] at hs
    obtain ⟨x, hx, hr⟩ := map_eq_ok.1 h
    obtain ⟨-, rfl⟩ := Prod.mk.inj hr
    have := length_readWord hx
    omega
  · rename_i t ht
    rw [ht, List.length_cons] at hs
    obtain ⟨x, hx, hr⟩ := map_eq_ok.1 h
    obtain ⟨-, rfl⟩ := Prod.mk.inj hr
    have := length_readWord hx
    omega
  · exact absurd h (by simp)

/-! ### Objects -/

/-- The settings given so far. -/
structure Given where
  stream : Option StreamKind := none
  eagerReverse : Option Bool := none

/-- The settings given, with the default of each that was not. -/
def Given.config (g : Given) : Config :=
  let defaults : Config := {}
  { stream := g.stream.getD defaults.stream, eagerReverse := g.eagerReverse.getD defaults.eagerReverse }

/-- Reads the comma in front of an item that is not the first. -/
def readSeparator (first : Bool) (s : List Char) : Except ReadError (List Char) :=
  if first then .ok s else readComma s

/-- Reads the next key of an object, behind the comma unless it is the first; none at the end of the object. -/
def nextKey (first : Bool) (s : List Char) : Except ReadError (Option String × List Char) := do
  match closing? .curly s with
  | some r => return (none, r)
  | none =>
    let s ← readSeparator first s
    let s ← readWord ['"'] (dropBlanks s)
    let (key, s) ← readText s
    return (some (String.ofList key), s)

/-- Reads the value of a member, from behind its key. -/
def readMember (g : Given) (key : String) (s : List Char) : Except ReadError (Given × List Char) := do
  if key = streamKey then
    if g.stream.isSome then .error (.repeatedKey streamKey)
    else
      let s ← readColon s
      let (stream, s) ← readStream s
      return ({ g with stream := some stream }, s)
  else if key = eagerKey then
    if g.eagerReverse.isSome then .error (.repeatedKey eagerKey)
    else
      let s ← readColon s
      let (eagerReverse, s) ← readFlag s
      return ({ g with eagerReverse := some eagerReverse }, s)
  else
    let s ← readColon s
    let s ← skipValue s
    return (g, s)

private theorem length_readSeparator {first : Bool} {s r : List Char} (h : readSeparator first s = .ok r) :
    r.length ≤ s.length := by
  unfold readSeparator at h
  split at h
  · exact Nat.le_of_eq (congrArg List.length (Except.ok.inj h)).symm
  · exact Nat.le_of_lt (length_readComma h)

private theorem length_nextKey {first : Bool} {s r : List Char} {key : Option String}
    (h : nextKey first s = .ok (key, r)) : r.length < s.length := by
  unfold nextKey at h
  split at h
  · rename_i r₁ h₁
    obtain ⟨-, rfl⟩ := Prod.mk.inj (Except.ok.inj h)
    exact length_closing? h₁
  · obtain ⟨s₁, h₁, h⟩ := bind_eq_ok.1 h
    obtain ⟨s₂, h₂, h⟩ := bind_eq_ok.1 h
    obtain ⟨⟨_, r₃⟩, h₃, h⟩ := bind_eq_ok.1 h
    obtain ⟨-, rfl⟩ := Prod.mk.inj (Except.ok.inj h)
    have := length_readSeparator h₁
    have := length_dropBlanks_le s₁
    have := length_readWord h₂
    have := length_readText h₃
    omega

private theorem length_readMember {g g' : Given} {key : String} {s r : List Char}
    (h : readMember g key s = .ok (g', r)) : r.length < s.length := by
  unfold readMember at h
  split at h
  · split at h
    · exact absurd h (by simp)
    · obtain ⟨r₁, h₁, h⟩ := bind_eq_ok.1 h
      obtain ⟨⟨_, r₂⟩, h₂, h⟩ := bind_eq_ok.1 h
      obtain ⟨-, rfl⟩ := Prod.mk.inj (Except.ok.inj h)
      exact Nat.lt_trans (length_readStream h₂) (length_readColon h₁)
  · split at h
    · split at h
      · exact absurd h (by simp)
      · obtain ⟨r₁, h₁, h⟩ := bind_eq_ok.1 h
        obtain ⟨⟨_, r₂⟩, h₂, h⟩ := bind_eq_ok.1 h
        obtain ⟨-, rfl⟩ := Prod.mk.inj (Except.ok.inj h)
        exact Nat.lt_trans (length_readFlag h₂) (length_readColon h₁)
    · obtain ⟨r₁, h₁, h⟩ := bind_eq_ok.1 h
      obtain ⟨r₂, h₂, h⟩ := bind_eq_ok.1 h
      obtain ⟨-, rfl⟩ := Prod.mk.inj (Except.ok.inj h)
      exact Nat.lt_trans (length_skipValue h₂) (length_readColon h₁)

/-- Reads the members of an object that are left. -/
def readMembers (first : Bool) (g : Given) (s : List Char) : Except ReadError (Given × List Char) :=
  match _ : nextKey first s with
  | .error e => .error e
  | .ok (none, r) => .ok (g, r)
  | .ok (some key, r) =>
    match _ : readMember g key r with
    | .error e => .error e
    | .ok (g', r') => readMembers false g' r'
termination_by s.length
decreasing_by
  have := length_nextKey ‹_›
  have := length_readMember ‹_›
  omega

/-! ### Arrays -/

/-- Goes to the next element of an array, behind the comma unless it is the first; none at the end of the array. -/
def nextElement (first : Bool) (s : List Char) : Except ReadError (Option (List Char)) := do
  match dropBlanks s with
  | [] => .error .ended
  | ']' :: _ => return none
  | s =>
    let s ← readSeparator first s
    match dropBlanks s with
    | [] => .error .ended
    | ']' :: _ => .error .malformed
    | s => return some s

/-- Reads the end of an array that gave `g`. -/
def readArrayEnd (g : Given) (s : List Char) : Except ReadError (Given × List Char) := do
  let s ← readWord [']'] (dropBlanks s)
  return (g, s)

/-- Reads the elements of an array, of which both may be missing, and its end. -/
def readElements (s : List Char) : Except ReadError (Given × List Char) := do
  match ← nextElement true s with
  | none => readArrayEnd {} s
  | some s =>
    let (stream, s) ← readStream s
    match ← nextElement false s with
    | none => readArrayEnd { stream := some stream } s
    | some s =>
      let (eagerReverse, s) ← readFlag s
      readArrayEnd { stream := some stream, eagerReverse := some eagerReverse } s

/-! ### Documents -/

/-- Reads the settings at the start of a text. -/
def readDocument (s : List Char) : Except ReadError (Given × List Char) :=
  match dropBlanks s with
  | '[' :: r => readElements r
  | '{' :: r => readMembers true {} r
  | s => .error (mismatch "struct ReshardConfig" s)

/-- Reads settings; behind them only blanks may stand. -/
def read (text : String) : Except ReadError Config := do
  let (g, r) ← readDocument text.toList
  if dropBlanks r = [] then return g.config else .error .malformed

end Config

end CrossMesh
