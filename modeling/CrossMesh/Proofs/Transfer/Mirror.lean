import CrossMesh.Proofs.Transfer.Channels
import CrossMesh.Proofs.Transfer.Roles
import Mathlib.Data.List.ProdSigma
import Mathlib.Data.List.Zip

/-!
# Transfers in the opposite direction

Exchanging the two meshes of a transfer turns every pair around.  The first pair that names a rank stays the first, so
the rank receives from the peer it sent to and the other way round (`roleOf_swap`).  Which ranks stand in two pairs
does not depend on the direction (`clash?_swap_eq_none_iff`), and the forward channels of the one direction are the
backward channels of the other (`channels_swap_subset`).
-/

namespace CrossMesh

theorem Mesh.pairsWith_swap (src dst : Mesh) : dst.pairsWith src = (src.pairsWith dst).map Prod.swap :=
  (List.zip_swap src.ids dst.ids).symm

/-- What a rank has to do in the opposite direction. -/
def Role.mirrored : Role → Role
  | sender peer => receiver peer
  | receiver peer => sender peer
  | stationary => stationary
  | bystander => bystander

theorem pairRole?_swap (rank : Rank) (a : Rank × Rank) :
    pairRole? rank a.swap = (pairRole? rank a).map Role.mirrored := by
  obtain ⟨src, dst⟩ := a
  unfold pairRole?
  by_cases hsrc : src = rank <;> by_cases hdst : dst = rank <;> simp [hsrc, hdst, Role.mirrored]

theorem roleOf_swap (pairs : List (Rank × Rank)) (rank : Rank) :
    roleOf (pairs.map Prod.swap) rank = (roleOf pairs rank).mirrored := by
  have hfirst : (pairs.map Prod.swap).findSome? (pairRole? rank) =
      (pairs.findSome? (pairRole? rank)).map Role.mirrored := by
    rw [List.findSome?_map, List.map_findSome?]
    exact congrArg (List.findSome? · pairs) (funext (pairRole?_swap rank))
  unfold roleOf
  rw [hfirst]
  cases pairs.findSome? (pairRole? rank) with
  | none => rfl
  | some role => rfl

theorem apart_swap_iff {a b : Rank × Rank} : Apart a.swap b.swap ↔ Apart a b := by
  unfold Apart
  simp only [Prod.fst_swap, Prod.snd_swap]
  tauto

theorem clash?_swap_eq_none_iff {pairs : List (Rank × Rank)} :
    clash? (pairs.map Prod.swap) = none ↔ clash? pairs = none := by
  rw [clash?_eq_none_iff, clash?_eq_none_iff, List.pairwise_map]
  simp only [apart_swap_iff]

/-- The channels of the opposite direction are among those of both directions. -/
theorem channels_swap_subset (pairs : List (Rank × Rank)) (rank : Rank) (eagerReverse : Bool) :
    channels (pairs.map Prod.swap) (some rank) eagerReverse ⊆ channels pairs (some rank) true := by
  intro members hmembers
  obtain ⟨a, b, hswapped, hne, hconcerns, hends⟩ := mem_channels_iff.1 hmembers
  have hmem : (b, a) ∈ pairs := (List.mem_map_swap b a pairs).1 hswapped
  have hconcerns' : Concerns (some rank) (b, a) := concerns_some_iff.2 (concerns_some_iff.1 hconcerns).symm
  refine mem_channels_iff.2 ⟨b, a, hmem, Ne.symm hne, hconcerns', ?_⟩
  -- What was forward is backward now.
  rcases hends with hforward | ⟨-, hbackward⟩
  · exact .inr ⟨rfl, hforward⟩
  · exact .inl hbackward

end CrossMesh
