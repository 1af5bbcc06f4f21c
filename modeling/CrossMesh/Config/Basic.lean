import CrossMesh.StreamKind

/-!
# Settings

What a relocation lets its user choose; everything has a default.
-/

namespace CrossMesh

/-- The settings of relocations. -/
structure Config where
  /-- The stream that communication is issued on. -/
  stream : StreamKind := .calculation
  /-- Whether the channel back is requested together with a channel. -/
  eagerReverse : Bool := true
  deriving DecidableEq

end CrossMesh
