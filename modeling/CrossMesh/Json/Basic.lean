import CrossMesh.Text.Quoted

/-!
# Reading JSON

What every reader of JSON text shares.  A reader takes the characters that are left of the text and answers with what
it read and the characters behind it, or with the first error.
-/

namespace CrossMesh

namespace Json

/-- The kind of a JSON value that stands where another was expected, with its content if it is simple. -/
inductive Found
  | null
  | boolean (b : Bool)
  | integer (n : Int)
  /-- A number that is no integer, by its decimal text. -/
  | decimal (digits : String)
  | text (s : String)
  | sequence
  | map

/-- The JSON text of a boolean. -/
def booleanText (b : Bool) : String := if b then "true" else "false"

def Found.description : Found → String
  | null => "null"
  | boolean b => "boolean `" ++ booleanText b ++ "`"
  | integer n => "integer `" ++ toString n ++ "`"
  | decimal digits => "floating point `" ++ digits ++ "`"
  | text s => "string " ++ quoted s
  | sequence => "sequence"
  | map => "map"

/-- Why a text could not be read. -/
inductive ReadError
  /-- The text ends too early. -/
  | ended
  /-- The text is not JSON, or has a part that cannot stand where it is. -/
  | malformed
  /-- A value of the wrong type. -/
  | unexpected (found : Found) (expected : String)
  /-- A name that is none of the `known` ones. -/
  | unknownName (name : String) (known : List String)
  /-- A key that was there before. -/
  | repeatedKey (key : String)

/-- What is wrong with the values of a text that is well-formed so far. -/
def ReadError.message? : ReadError → Option String
  | ended => none
  | malformed => none
  | unexpected found expected => some ("invalid type: " ++ found.description ++ ", expected " ++ expected)
  | unknownName name known =>
    some ("unknown variant `" ++ name ++ "`, expected one of " ++ ", ".intercalate (known.map fun k => "`" ++ k ++ "`"))
  | repeatedKey key => some ("duplicate field `" ++ key ++ "`")

/-- A reader of two parts succeeds if both do. -/
theorem bind_eq_ok {α β : Type} {x : Except ReadError α} {f : α → Except ReadError β} {b : β} :
    (x >>= f) = .ok b ↔ ∃ a, x = .ok a ∧ f a = .ok b := by
  cases x <;> simp [bind, Except.bind]

theorem map_eq_ok {α β : Type} {x : Except ReadError α} {f : α → β} {b : β} :
    x.map f = .ok b ↔ ∃ a, x = .ok a ∧ f a = b := by
  cases x <;> simp [Except.map]

/-! ### Blanks and words -/

def isBlank (c : Char) : Bool := c = ' ' || c = '\t' || c = '\n' || c = '\r'

def dropBlanks (s : List Char) : List Char := s.dropWhile isBlank

theorem length_dropBlanks_le (s : List Char) : (dropBlanks s).length ≤ s.length :=
  (List.dropWhile_sublist isBlank).length_le

/-- Reads the characters of `word`. -/
def readWord : List Char → List Char → Except ReadError (List Char)
  | [], s => .ok s
  | _ :: _, [] => .error .ended
  | c :: word, d :: s => if c = d then readWord word s else .error .malformed

theorem eq_append_of_readWord {word s r : List Char} (h : readWord word s = .ok r) : s = word ++ r := by
  induction word generalizing s with
  | nil => exact Except.ok.inj h
  | cons c word ih =>
    cases s with
    | nil => exact absurd h (by simp [readWord])
    | cons d s =>
      unfold readWord at h
      split at h
      · rename_i hc
        rw [hc, ih h, List.cons_append]
      · exact absurd h (by simp)

theorem length_readWord {word s r : List Char} (h : readWord word s = .ok r) : r.length ≤ s.length := by
  rw [eq_append_of_readWord h, List.length_append]
  exact Nat.le_add_left ..

/-- Reads a colon, behind blanks. -/
def readColon (s : List Char) : Except ReadError (List Char) := readWord [':'] (dropBlanks s)

theorem length_readColon {s r : List Char} (h : readColon s = .ok r) : r.length < s.length := by
  have hs := congrArg List.length (eq_append_of_readWord h)
  have := length_dropBlanks_le s
  simp at hs
  omega

end Json

end CrossMesh
