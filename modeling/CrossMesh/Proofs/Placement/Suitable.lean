import CrossMesh.Proofs.Transfer.Clash
import CrossMesh.Strategy
import Mathlib.Data.List.Sort

/-!
# When placements suit

Whether a value can move position by position is decided by a scan of the pairs of the two meshes.  What the scan
decides is said here without it: the placements split the tensor alike and leave the same axes to be summed over, and
their meshes are different meshes of one shape in which the ranks of both stand at the same positions (`suits_iff`).
Meshes of one shape have as many ranks each, since a mesh has one rank for each of its cells.
-/

namespace CrossMesh

/-- Sets of axes are told apart by their members. -/
theorem AxisSet.eq_iff_mem {axes others : AxisSet} : axes = others ↔ ∀ x, x ∈ axes.toList ↔ x ∈ others.toList := by
  constructor
  · rintro rfl x
    exact Iff.rfl
  · intro hmem
    have hlist : axes.toList = others.toList := axes.increasing.eq_of_mem_iff others.increasing hmem
    cases axes
    cases others
    cases hlist
    rfl

/-- Two placements suit exactly if they split the tensor alike, leave the same axes to be summed over and lie on meshes
of one shape that differ in their ranks, their shape or the names of their axes, where every rank of both meshes stands
at the same position in both. -/
theorem suits_iff (src dst : Placement) :
    Strategy.sameLayout.suits src dst = true ↔
      src.split = dst.split ∧ (∀ axis, axis ∈ src.pending.toList ↔ axis ∈ dst.pending.toList) ∧
        src.mesh.shape = dst.mesh.shape ∧
        (src.mesh.ids, src.mesh.shape, src.mesh.axes) ≠ (dst.mesh.ids, dst.mesh.shape, dst.mesh.axes) ∧
        ∀ (rank : Rank) (i j : Nat), src.mesh.ids[i]? = some rank → dst.mesh.ids[j]? = some rank → i = j := by
  have hsuits : Strategy.sameLayout.suits src dst = true ↔ src.Relocatable dst := decide_eq_true_iff
  rw [hsuits]
  unfold Placement.Relocatable Placement.SameLayout
  rw [AxisSet.eq_iff_mem, Ne, Mesh.eq_iff]
  constructor
  · rintro ⟨⟨hsplit, hpending⟩, hmesh, hshape, hclash⟩
    have hlen := Mesh.length_ids_of_shape_eq hshape
    exact ⟨hsplit, hpending, hshape, hmesh, (Mesh.clash?_pairsWith_eq_none_iff hlen).1 hclash⟩
  · rintro ⟨hsplit, hpending, hshape, hmesh, hpositions⟩
    have hlen := Mesh.length_ids_of_shape_eq hshape
    exact ⟨⟨hsplit, hpending⟩, hmesh, hshape, (Mesh.clash?_pairsWith_eq_none_iff hlen).2 hpositions⟩

end CrossMesh
