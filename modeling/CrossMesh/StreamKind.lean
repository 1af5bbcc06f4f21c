/-!
# Execution streams

The streams an operation can be issued on, with the names the executor knows them by.
-/

namespace CrossMesh

inductive StreamKind
  /-- The stream of ordinary computation. -/
  | calculation
  /-- The stream of model-parallel communication. -/
  | modelParallel
  /-- The stream of sharding communication. -/
  | sharding
  deriving DecidableEq

namespace StreamKind

def all : List StreamKind := [calculation, modelParallel, sharding]

def name : StreamKind → String
  | calculation => "default"
  | modelParallel => "auto_parallel_mp"
  | sharding => "auto_parallel_sharding"

def ofName? (name : String) : Option StreamKind := all.find? (·.name = name)

theorem ofName?_eq_some {name : String} {stream : StreamKind} :
    ofName? name = some stream ↔ stream.name = name := by
  constructor
  · intro h
    simpa using List.find?_some h
  · rintro rfl
    cases stream <;> decide

end StreamKind

end CrossMesh
