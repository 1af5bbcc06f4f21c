import CrossMesh.Json.Number
import CrossMesh.Json.Text

/-!
# JSON values of the wrong type

What is reported where a value is not of the type that was expected.  A word, a string or a number is read in full
first, so that the report can quote it, and something wrong inside it is reported instead; an array or an object is
only recognised by its bracket.
-/

namespace CrossMesh

namespace Json

/-- The value that comes next. -/
def readFound : List Char → Except ReadError Found
  | [] => .error .ended
  | c :: r =>
    if c = 'n' then (readWord ['u', 'l', 'l'] r).map fun _ => .null
    else if c = 't' then (readWord ['r', 'u', 'e'] r).map fun _ => .boolean true
    else if c = 'f' then (readWord ['a', 'l', 's', 'e'] r).map fun _ => .boolean false
    else if c = '"' then (readText r).map fun t => .text (String.ofList t.1)
    else if c = '[' then .ok .sequence
    else if c = '\x7b' then .ok .map
    else if c = '-' then readNumeral true r >>= Numeral.found
    else if c.isDigit then readNumeral false (c :: r) >>= Numeral.found
    else .error .malformed

/-- The error of a value that is not `expected`. -/
def mismatch (expected : String) (s : List Char) : ReadError :=
  match readFound s with
  | .error e => e
  | .ok found => .unexpected found expected

end Json

end CrossMesh
