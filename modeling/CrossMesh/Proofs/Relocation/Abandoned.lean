import CrossMesh.Proofs.Groups.Provided
import CrossMesh.Proofs.Relocation.Partners

/-!
# Channels of relocations that fail

A rank requests the channels of its pairs before it looks at the value and its type.  A relocation that fails after
that, because the value is not there or its size is unknown, has made these channels all the same: the groups are then
those of a plan that nobody carries out (`groups_of_failed_relocation`).  They stay as they were only if a clash or an
unsuitable placement stopped the relocation before, or if the rank needed no channel that was not there
(`channels_left_unsizedOverlap`).
-/

namespace CrossMesh

namespace Worker

variable {w : Worker} {rank : Rank} {config : Config} {m : Relocation}

/-- The channels that a rank requests for a relocation were made before. -/
def Connected (w : Worker) (rank : Rank) (config : Config) (m : Relocation) : Prop :=
  w.groups.Provides (channels m.pairs (some rank) config.eagerReverse)

/-- A relocation that fails leaves the groups alone exactly if a clash stopped it or its channels were there. -/
theorem groups_relocate_eq_iff {e : RelocationError} (h : (w.relocate rank config m).1 = .error e) :
    (w.relocate rank config m).2.groups = w.groups ↔ clash? m.pairs ≠ none ∨ w.Connected rank config m := by
  rw [(relocate_eq_error (Prod.ext h rfl)).2]
  by_cases hclash : clash? m.pairs = none
  · rw [if_pos hclash, Groups.requestAll_eq_self_iff]
    exact (or_iff_right (not_not.2 hclash)).symm
  · rw [if_neg hclash]
    exact iff_of_true rfl (.inl hclash)

end Worker

/-- A relocation that fails leaves the groups as they were if a rank stands in two pairs.  Otherwise it leaves those
that planning the channels of the rank makes, and so the groups are as they were exactly if these channels were there.
With the default strategies the same is left between suitable placements, and the groups as they were between
others. -/
theorem groups_of_failed_relocation (w : Worker) (rank : Rank) (config : Config) (m : Relocation) :
    (∀ e, (w.relocate rank config m).1 = .error e →
        (∀ r, clash? m.pairs = some r → (w.relocate rank config m).2.groups = w.groups) ∧
        (clash? m.pairs = none → (w.relocate rank config m).2.groups =
          (w.plan m.src.mesh m.dst.mesh (some rank) config.eagerReverse).groups) ∧
        ((w.relocate rank config m).2.groups = w.groups ↔
          clash? m.pairs ≠ none ∨ w.Connected rank config m)) ∧
      ∀ e, (w.relocateWith Strategy.defaults rank config m).1 = .error e →
        ((w.relocateWith Strategy.defaults rank config m).2.groups = w.groups ↔
          ¬m.src.Relocatable m.dst ∨ w.Connected rank config m) := by
  constructor
  · intro e he
    have hgroups := (Worker.relocate_eq_error (Prod.ext he rfl)).2
    refine ⟨fun r hclash => ?_, fun hclash => ?_, Worker.groups_relocate_eq_iff he⟩
    · rw [hgroups, if_neg (by simp [hclash])]
    · rw [hgroups, if_pos hclash, Worker.groups_plan]
      rfl
  · intro e he
    by_cases hm : m.src.Relocatable m.dst
    · rw [Worker.relocateWith_defaults hm] at he ⊢
      have hiff := Worker.groups_relocate_eq_iff he
      rw [or_iff_right (not_not.2 hm)]
      exact hiff.trans (or_iff_right (not_not.2 hm.2.2.2))
    · rw [Worker.relocateWith_unsuitable hm]
      exact iff_of_true rfl (.inl hm)

/-- The third rank of `unsizedOverlap` refuses the type, but only after its channels were made. -/
theorem channels_left_unsizedOverlap :
    (Worker.relocate { program := Program.forked } 2 {} unsizedOverlap).1 =
        .error (.dynamicType ⟨0⟩ ⟨[dynamicSize], .f32⟩) ∧
      (Worker.relocate { program := Program.forked } 2 {} unsizedOverlap).2.groups.toList =
        [⟨1, [0, 2], .pointToPoint⟩, ⟨2, [2, 0], .pointToPoint⟩] ∧
      (Worker.relocate { program := Program.forked } 2 {} unsizedOverlap).2.groups ≠ {} := by
  have hgroups : (Worker.relocate { program := Program.forked } 2 {} unsizedOverlap).2.groups.toList =
      [⟨1, [0, 2], .pointToPoint⟩, ⟨2, [2, 0], .pointToPoint⟩] := rfl
  refine ⟨rfl, hgroups, fun hempty => ?_⟩
  rw [hempty] at hgroups
  exact absurd hgroups (by simp)

end CrossMesh
