import CrossMesh.Proofs.Groups.Provided
import CrossMesh.Proofs.Relocation.Planning
import CrossMesh.Proofs.Transfer.Mirror

/-!
# Relocating back

The way back of a relocation is its mirror image: the same placements suit, every rank receives from the peer it sent
to and sends to the peer it received from, and the edges are turned around (`relocating_back`).  A rank that made the
channels of both directions on the way there finds on the way back every channel it asks for, since nothing that is
done with a table of groups takes a group away (`Groups.prefix_run`).
-/

namespace CrossMesh

theorem Placement.relocatable_comm {src dst : Placement} : src.Relocatable dst ↔ dst.Relocatable src := by
  unfold Relocatable SameLayout
  rw [Mesh.pairsWith_swap src.mesh dst.mesh, clash?_swap_eq_none_iff, ne_comm, eq_comm (a := src.mesh.shape),
    eq_comm (a := src.split), eq_comm (a := src.pending)]

namespace Relocation

/-- A relocation between the same placements in the opposite direction. -/
def back (m : Relocation) (value : ValueId) (type : TensorType) : Relocation where
  src := m.dst
  dst := m.src
  value := value
  type := type

variable {m : Relocation} {rank : Rank} {config : Config}

theorem pairs_back (m : Relocation) (value : ValueId) (type : TensorType) :
    (m.back value type).pairs = m.pairs.map Prod.swap :=
  Mesh.pairsWith_swap m.src.mesh m.dst.mesh

theorem edges_back (m : Relocation) (value : ValueId) (type : TensorType) :
    (m.back value type).edges = m.edges.map Prod.swap := by
  unfold edges
  rw [pairs_back, List.filter_map, List.map_map, List.map_map]
  have hturned : (fun a : Rank × Rank => decide (a.1 ≠ a.2)) ∘ Prod.swap = fun a => decide (a.1 ≠ a.2) :=
    funext fun a => decide_eq_decide.2 ne_comm
  rw [hturned]
  rfl

theorem asks_subset (m : Relocation) (rank : Rank) (config : Config) (succeeds : Bool) :
    m.asks rank config succeeds ⊆ channels m.pairs (some rank) config.eagerReverse := by
  unfold asks
  split
  · refine List.append_subset.2 ⟨List.Subset.refl _, ?_⟩
    split
    · exact channels_roleOf_subset ..
    · exact List.nil_subset _
  · exact List.nil_subset _

end Relocation

namespace Worker

variable {w after : Worker} {rank : Rank} {config : Config} {m : Relocation}

/-- A relocation makes no group if all channels of its rank are there, whether it succeeds or not. -/
theorem groups_relocate_of_provides (h : w.groups.Provides (channels m.pairs (some rank) config.eagerReverse)) :
    (w.relocate rank config m).2.groups = w.groups := by
  rw [(w.relocate_asks rank config m).1]
  exact Groups.requestAll_eq_self_iff.2 (h.subset (m.asks_subset rank config _))

theorem groups_relocateWith_of_provides (h : w.groups.Provides (channels m.pairs (some rank) config.eagerReverse)) :
    (w.relocateWith Strategy.defaults rank config m).2.groups = w.groups := by
  by_cases hm : m.src.Relocatable m.dst
  · rw [relocateWith_defaults hm]
    exact groups_relocate_of_provides (w := w.note (.strategyChosen m.value "same_status")) h
  · rw [relocateWith_unsuitable hm]

/-- A relocation that succeeds leaves a table with the channels of its rank. -/
theorem provides_of_relocate {v : ValueId} (h : w.relocate rank config m = (.ok v, after)) :
    after.groups.Provides (channels m.pairs (some rank) config.eagerReverse) := by
  rw [(relocate_eq_ok h).2.1]
  exact (Groups.provides_requestAll _ _).subset (List.subset_append_left ..)

theorem provides_of_relocateWith {v : ValueId}
    (h : w.relocateWith Strategy.defaults rank config m = (.ok v, after)) :
    after.groups.Provides (channels m.pairs (some rank) config.eagerReverse) := by
  by_cases hm : m.src.Relocatable m.dst
  · rw [relocateWith_defaults hm] at h
    exact provides_of_relocate h
  · rw [relocateWith_unsuitable hm] at h
    exact absurd h (by simp)

end Worker

/-- Relocating back is the mirror image of relocating there: placements suit in both directions or in none, every rank
has the mirrored role with the same peer, and the edges are those there, turned around.  If a relocation with eager
reverse channels succeeded on a rank, alone or by the default strategies, then whatever is done with its groups after
that, no relocation back by this rank makes a group. -/
theorem relocating_back (m : Relocation) :
    Strategy.sameLayout.suits m.src m.dst = Strategy.sameLayout.suits m.dst m.src ∧
      (∀ value type rank, roleOf (m.back value type).pairs rank = (roleOf m.pairs rank).mirrored) ∧
      (∀ value type, (m.back value type).edges = m.edges.map Prod.swap) ∧
      ∀ (w after : Worker) (rank : Rank) (config : Config) (v : ValueId), config.eagerReverse = true →
        (w.relocate rank config m = (.ok v, after) ∨
          w.relocateWith Strategy.defaults rank config m = (.ok v, after)) →
        ∀ (calls : List Groups.Call) (later : Worker), later.groups = after.groups.run calls →
          ∀ config' value type, (later.relocate rank config' (m.back value type)).2.groups = later.groups ∧
            (later.relocateWith Strategy.defaults rank config' (m.back value type)).2.groups = later.groups := by
  refine ⟨decide_eq_decide.2 Placement.relocatable_comm, fun value type rank => ?_, m.edges_back, ?_⟩
  · rw [Relocation.pairs_back, roleOf_swap]
  · intro w after rank config v heager hthere calls later hlater config' value type
    have hafter : after.groups.Provides (channels m.pairs (some rank) true) := by
      rw [← heager]
      rcases hthere with h | h
      · exact Worker.provides_of_relocate h
      · exact Worker.provides_of_relocateWith h
    have hback : later.groups.Provides (channels (m.back value type).pairs (some rank) config'.eagerReverse) := by
      rw [hlater, Relocation.pairs_back]
      exact (hafter.of_prefix (Groups.prefix_run ..)).subset (channels_swap_subset ..)
    exact ⟨Worker.groups_relocate_of_provides hback, Worker.groups_relocateWith_of_provides hback⟩

/-- The groups of the sender of `overlap`, and one that was made later. -/
def Groups.sent : Groups :=
  (Worker.relocate { program := .forked } 0 {} overlap).2.groups.run [.act (.request [5, 6] .collective)]

theorem relocating_back_overlap :
    roleOf (overlap.back ⟨1⟩ ⟨[2], .f32⟩).pairs 0 = .receiver 2 ∧
      (Worker.relocate { groups := .sent } 0 {} (overlap.back ⟨1⟩ ⟨[2], .f32⟩)).2.groups = .sent := by
  obtain ⟨-, hroles, -, hgroups⟩ := relocating_back overlap
  refine ⟨hroles ⟨1⟩ ⟨[2], .f32⟩ 0, ?_⟩
  exact (hgroups { program := .forked } _ 0 {} ⟨2⟩ rfl (.inl rfl) [.act (.request [5, 6] .collective)]
    { groups := .sent } rfl {} ⟨1⟩ ⟨[2], .f32⟩).1

end CrossMesh
