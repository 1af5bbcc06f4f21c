import CrossMesh.Mesh

/-!
# Placements

How a tensor is laid out over a mesh: which mesh axis each of its dimensions is split over, and over which mesh axes
it still has to be summed.  An operation has a placement of its own: the mesh it runs on, the placements of its
operands and results, and the pipeline chunk that schedules it.
-/

namespace CrossMesh

/-! ### Sets of axes -/

/-- Puts a number into an increasing list, once. -/
def insertAxis (x : Nat) : List Nat → List Nat
  | [] => [x]
  | y :: rest => if x < y then x :: y :: rest else if x = y then y :: rest else y :: insertAxis x rest

theorem mem_insertAxis {x y : Nat} {l : List Nat} : y ∈ insertAxis x l ↔ y = x ∨ y ∈ l := by
  induction l with
  | nil => simp [insertAxis]
  | cons a l ih =>
    unfold insertAxis
    split
    · simp
    · split
      · rename_i h; subst h; simp
      · simp only [List.mem_cons, ih]
        exact or_left_comm

theorem pairwise_insertAxis (x : Nat) {l : List Nat} (h : l.Pairwise (· < ·)) :
    (insertAxis x l).Pairwise (· < ·) := by
  induction l with
  | nil => exact List.pairwise_singleton ..
  | cons a l ih =>
    have ha := List.pairwise_cons.1 h
    unfold insertAxis
    split
    · rename_i hx
      refine List.pairwise_cons.2 ⟨fun z hz => ?_, h⟩
      rcases List.mem_cons.1 hz with rfl | hz
      · exact hx
      · exact Nat.lt_trans hx (ha.1 z hz)
    · split
      · exact h
      · refine List.pairwise_cons.2 ⟨fun z hz => ?_, ih ha.2⟩
        rcases mem_insertAxis.1 hz with rfl | hz
        · omega
        · exact ha.1 z hz

/-- A set of mesh axes, kept in increasing order. -/
structure AxisSet where
  toList : List Nat
  increasing : toList.Pairwise (· < ·)
  deriving DecidableEq

namespace AxisSet

def empty : AxisSet := ⟨[], List.Pairwise.nil⟩

def insert (axes : AxisSet) (x : Nat) : AxisSet := ⟨insertAxis x axes.toList, pairwise_insertAxis x axes.increasing⟩

def ofList (l : List Nat) : AxisSet := l.foldl insert empty

end AxisSet

/-! ### Tensors -/

structure Placement where
  mesh : Mesh
  /-- The mesh axis each tensor dimension is split over, `-1` where every rank holds the whole dimension. -/
  split : List Int
  /-- The mesh axes over which the tensor still has to be summed. -/
  pending : AxisSet
  deriving DecidableEq

namespace Placement

/-- A tensor with `ndim` dimensions, whole on every rank. -/
def replicated (mesh : Mesh) (ndim : Nat) : Placement := ⟨mesh, List.replicate ndim (-1), AxisSet.empty⟩

/-- The same layout on another mesh. -/
def onMesh (a : Placement) (mesh : Mesh) : Placement := { a with mesh }

/-- Whether two placements lay the tensor out alike, whatever their meshes. -/
def SameLayout (a b : Placement) : Prop := a.split = b.split ∧ a.pending = b.pending

instance (a b : Placement) : Decidable (a.SameLayout b) :=
  inferInstanceAs (Decidable (a.split = b.split ∧ a.pending = b.pending))

end Placement

/-! ### Operations -/

/-- The chunk of an operation that no pipeline stage has claimed. -/
def unscheduled : Int := -1

structure OpPlacement where
  /-- The mesh the operation runs on. -/
  mesh : Mesh
  operands : List Placement
  results : List Placement
  chunk : Int
  deriving DecidableEq

/-- The chunk that schedules the operation, if one does. -/
def OpPlacement.scheduled? (a : OpPlacement) : Option Int :=
  if a.chunk = unscheduled then none else some a.chunk

end CrossMesh
