import CrossMesh.Text.Listing

/-!
# Meshes of workers

A mesh lays the ranks of a group of workers out in a grid with named axes, stored row by row.  A mesh names every
rank at most once and has as many ranks as its shape has cells; both are part of the type, so two meshes of the same
shape always pair up position by position.  `Mesh.build` makes a mesh from the indices given to the axis names, the
last index given to a name counting; `Mesh.assemble` is the same on a finished table of names, in whatever order the
table lists them.
-/

namespace CrossMesh

/-- The identity of a worker among all workers. -/
abbrev Rank := Nat

/-- The number of cells of a grid, `1` for a grid without axes. -/
def volume (shape : List Nat) : Nat := shape.foldl (· * ·) 1

structure Mesh where
  /-- The ranks, row by row. -/
  ids : List Rank
  shape : List Nat
  /-- The names of the axes. -/
  axes : List String
  nodup_ids : ids.Nodup
  length_ids : ids.length = volume shape
  length_axes : axes.length = shape.length
  deriving DecidableEq

inductive MeshError
  /-- An axis name was given an index outside the shape. -/
  | axisOutOfRange (index : Nat) (shape : List Nat)
  /-- Two axis names were given one index. -/
  | axisTaken (index : Nat)
  /-- Some index of the shape has no axis name. -/
  | axesUnmapped (mapped expected : Nat)
  | wrongCount (count : Nat) (shape : List Nat)
  | repeatedRank (rank : Rank)
  deriving DecidableEq

def MeshError.message : MeshError → String
  | .axisOutOfRange index shape =>
    "invalid mesh dimension: Index " ++ toString index ++ " exceeds mesh shape " ++ numbersText shape
  | .axisTaken index => "invalid mesh dimension: Dimension " ++ toString index ++ " already mapped"
  | .axesUnmapped mapped expected =>
    "invalid process mesh: Not all mesh dimensions are mapped. Got " ++ toString mapped ++ ", expected " ++
      toString expected
  | .wrongCount count shape =>
    "invalid process mesh: Process count (" ++ toString count ++ ") doesn't match mesh shape " ++ numbersText shape
  | .repeatedRank rank => "invalid process mesh: Process " ++ toString rank ++ " appears more than once"

/-- What a mesh is refused for: the indices of the axis names among themselves and against the shape, or the mesh they
would give. -/
inductive MeshErrorKind
  | invalidDimension
  | invalidMesh
  deriving DecidableEq

def MeshError.kind : MeshError → MeshErrorKind
  | .axisOutOfRange .. | .axisTaken .. => .invalidDimension
  | .axesUnmapped .. | .wrongCount .. | .repeatedRank .. => .invalidMesh

theorem MeshErrorKind.eq_invalidMesh_iff (kind : MeshErrorKind) : kind = .invalidMesh ↔ kind ≠ .invalidDimension := by
  cases kind <;> decide

/-! ### The first repeated rank -/

/-- The first rank of a list that is among `seen` or equal to an earlier one. -/
def firstRepeatFrom (seen : List Rank) : List Rank → Option Rank
  | [] => none
  | r :: rest => if r ∈ seen then some r else firstRepeatFrom (r :: seen) rest

/-- The first rank equal to an earlier one. -/
def firstRepeat? (ranks : List Rank) : Option Rank := firstRepeatFrom [] ranks

private theorem firstRepeatFrom_none {seen ranks : List Rank} (h : firstRepeatFrom seen ranks = none) :
    ranks.Nodup ∧ ∀ r ∈ ranks, r ∉ seen := by
  induction ranks generalizing seen with
  | nil => exact ⟨List.nodup_nil, fun r hr => absurd hr List.not_mem_nil⟩
  | cons a rest ih =>
    unfold firstRepeatFrom at h
    split at h
    · exact absurd h (by simp)
    · rename_i ha
      obtain ⟨hnd, hout⟩ := ih h
      refine ⟨List.nodup_cons.2 ⟨fun hm => hout a hm (List.mem_cons_self ..), hnd⟩, fun r hr => ?_⟩
      rcases List.mem_cons.1 hr with rfl | hr
      · exact ha
      · exact fun hs => hout r hr (List.mem_cons_of_mem _ hs)

theorem nodup_of_firstRepeat?_eq_none {ranks : List Rank} (h : firstRepeat? ranks = none) : ranks.Nodup :=
  (firstRepeatFrom_none h).1

/-! ### Axis names -/

/-- Gives `name` the index `index`, in place of the index it had. -/
def assignAxis (table : List (String × Nat)) (name : String) (index : Nat) : List (String × Nat) :=
  match table with
  | [] => [(name, index)]
  | (n, i) :: rest => if n = name then (n, index) :: rest else (n, i) :: assignAxis rest name index

/-- The index each name was given last. -/
def axisTable (assignments : List (Nat × String)) : List (String × Nat) :=
  assignments.foldl (fun table a => assignAxis table a.2 a.1) []

/-- Puts each name of the table into the slot of its index. -/
def fillAxes (shape : List Nat) (slots : List (Option String)) :
    List (String × Nat) → Except MeshError (List (Option String))
  | [] => .ok slots
  | (name, index) :: rest =>
    match slots[index]? with
    | none => .error (.axisOutOfRange index shape)
    | some (some _) => .error (.axisTaken index)
    | some none => fillAxes shape (slots.set index (some name)) rest

namespace Mesh

/-- The mesh whose axes are named by a table.  Defects of the table come first, then an axis without a name, then a
wrong number of ranks, then a repeated rank. -/
def assemble (ids : List Rank) (shape : List Nat) (table : List (String × Nat)) : Except MeshError Mesh :=
  match fillAxes shape (List.replicate shape.length none) table with
  | .error e => .error e
  | .ok slots =>
    let axes := slots.filterMap id
    if length_axes : axes.length = shape.length then
      if length_ids : ids.length = volume shape then
        match h : firstRepeat? ids with
        | some rank => .error (.repeatedRank rank)
        | none => .ok { ids, shape, axes, nodup_ids := nodup_of_firstRepeat?_eq_none h, length_ids, length_axes }
      else .error (.wrongCount ids.length shape)
    else .error (.axesUnmapped axes.length shape.length)

/-- The mesh whose axes are named by assignments of an index to a name, of which the last for each name counts. -/
def build (ids : List Rank) (shape : List Nat) (assignments : List (Nat × String)) : Except MeshError Mesh :=
  assemble ids shape (axisTable assignments)

/-- The name of an axis that was given none. -/
def axisName (index : Nat) : String := "d" ++ toString index

/-- The mesh whose axes are named `d0`, `d1`, … in order. -/
def grid (ids : List Rank) (shape : List Nat) : Except MeshError Mesh :=
  build ids shape ((List.range shape.length).map fun i => (i, axisName i))

/-- The number of axes. -/
def ndim (mesh : Mesh) : Nat := mesh.shape.length

instance : Membership Rank Mesh := ⟨fun mesh rank => rank ∈ mesh.ids⟩

instance (rank : Rank) (mesh : Mesh) : Decidable (rank ∈ mesh) :=
  inferInstanceAs (Decidable (rank ∈ mesh.ids))

theorem mem_iff {rank : Rank} {mesh : Mesh} : rank ∈ mesh ↔ rank ∈ mesh.ids := Iff.rfl

theorem eq_iff {mesh other : Mesh} :
    mesh = other ↔ (mesh.ids, mesh.shape, mesh.axes) = (other.ids, other.shape, other.axes) := by
  constructor
  · rintro rfl
    rfl
  · intro h
    cases mesh
    cases other
    cases h
    rfl

theorem length_ids_of_shape_eq {mesh other : Mesh} (h : mesh.shape = other.shape) :
    mesh.ids.length = other.ids.length := by
  rw [mesh.length_ids, other.length_ids, h]

end Mesh

end CrossMesh
