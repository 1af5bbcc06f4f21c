import CrossMesh.Relocation

/-!
# Strategies

A strategy is a way to relocate a value between placements that suit it.  The first strategy of a list that suits is
the one that is used.
-/

namespace CrossMesh

structure Strategy where
  name : String
  suits : Placement → Placement → Bool
  run : Worker → Rank → Config → Relocation → Except RelocationError ValueId × Worker

/-- Placements between which a value can move position by position: the same layout on different meshes of one shape,
with no rank in two pairs. -/
def Placement.Relocatable (src dst : Placement) : Prop :=
  src.SameLayout dst ∧ src.mesh ≠ dst.mesh ∧ src.mesh.shape = dst.mesh.shape ∧
    clash? (src.mesh.pairsWith dst.mesh) = none

instance (src dst : Placement) : Decidable (src.Relocatable dst) :=
  inferInstanceAs (Decidable (_ ∧ _ ∧ _ ∧ _))

namespace Strategy

/-- Moves a value position by position. -/
def sameLayout : Strategy where
  name := "same_status"
  suits src dst := src.Relocatable dst
  run := Worker.relocate

/-- The strategies used where none are named. -/
def defaults : List Strategy := [sameLayout]

/-- The first strategy that suits. -/
def choose? (strategies : List Strategy) (src dst : Placement) : Option Strategy :=
  strategies.find? fun s => s.suits src dst

end Strategy

/-- Relocates a value with the first strategy that suits. -/
def Worker.relocateWith (w : Worker) (strategies : List Strategy) (rank : Rank) (config : Config) (m : Relocation) :
    Except RelocationError ValueId × Worker :=
  match Strategy.choose? strategies m.src m.dst with
  | none => (.error (.unsupported m.value m.src m.dst), w)
  | some s => s.run (w.note (.strategyChosen m.value s.name)) rank config m

end CrossMesh
