import CrossMesh.Proofs.Relocation.Matching
import CrossMesh.Proofs.Transfer.Clash

/-!
# The check of placements and the relocation agree

Whether two placements suit is asked before a relocation, and the relocation looks for clashing pairs once more on its
own.  Both come to the same end on every rank (`relocate_agrees_with_relocatable`).  Between suitable placements no
clash is found, and no rank of a mesh is left over, since meshes of one shape pair all their ranks up.  Between
placements that only a clash makes unsuitable every rank refuses, and for the same rank: one that stands in both
meshes, but not at the same position.
-/

namespace CrossMesh

/-- Placements of one layout on different meshes of one shape suit unless their pairs clash. -/
theorem Placement.exists_clash {src dst : Placement} (hlayout : src.SameLayout dst)
    (hshape : src.mesh.shape = dst.mesh.shape) (hmesh : src.mesh ≠ dst.mesh) (hnot : ¬src.Relocatable dst) :
    ∃ r, clash? (src.mesh.pairsWith dst.mesh) = some r := by
  cases hclash : clash? (src.mesh.pairsWith dst.mesh) with
  | none => exact absurd ⟨hlayout, hmesh, hshape, hclash⟩ hnot
  | some r => exact ⟨r, rfl⟩

/-- A rank of two suitable meshes has a part in the transfer. -/
theorem Relocation.role_of_mem {m : Relocation} (hm : m.src.Relocatable m.dst) {rank : Rank}
    (hrank : rank ∈ m.src.mesh ∨ rank ∈ m.dst.mesh) :
    (∃ peer, roleOf m.pairs rank = .sender peer) ∨ (∃ peer, roleOf m.pairs rank = .receiver peer) ∨
      roleOf m.pairs rank = .stationary := by
  cases hrole : roleOf m.pairs rank with
  | sender peer => exact .inl ⟨peer, rfl⟩
  | receiver peer => exact .inr (.inl ⟨peer, rfl⟩)
  | stationary => exact .inr (.inr rfl)
  | bystander =>
    obtain ⟨hsrc, hdst⟩ := notMem_of_bystander hm hrole
    exact absurd hrank (not_or.2 ⟨hsrc, hdst⟩)

namespace Worker

variable {w : Worker} {rank : Rank} {config : Config} {m : Relocation}

/-- What a relocation that was refused leaves: the error, and the program and the groups as they were. -/
structure Refused (w : Worker) (e : RelocationError) (outcome : Except RelocationError ValueId × Worker) : Prop where
  answer : outcome.1 = .error e
  program : outcome.2.program = w.program
  groups : outcome.2.groups = w.groups

theorem refused_of_clash (w : Worker) (rank : Rank) (config : Config) {r : Rank} (hclash : clash? m.pairs = some r) :
    w.Refused (.clash r) (w.relocate rank config m) := by
  unfold relocate
  rw [hclash]
  exact ⟨rfl, rfl, rfl⟩

theorem refused_of_unsuitable (w : Worker) (rank : Rank) (config : Config) (hnot : ¬m.src.Relocatable m.dst) :
    w.Refused (.unsupported m.value m.src m.dst) (w.relocateWith Strategy.defaults rank config m) := by
  rw [relocateWith_unsuitable hnot]
  exact ⟨rfl, rfl, rfl⟩

/-- Between suitable placements neither a clash nor a rank that is left over is a reason to refuse. -/
theorem answer_ne_of_relocatable (hm : m.src.Relocatable m.dst) (w : Worker) (rank : Rank) (config : Config)
    (r : Rank) :
    (w.relocate rank config m).1 ≠ .error (.clash r) ∧ (w.relocate rank config m).1 ≠ .error (.unpaired r) := by
  have reason : ∀ e, (w.relocate rank config m).1 = .error e → m.Refusal w.program rank (roleOf m.pairs rank) e := by
    intro e he
    rcases refusal_of_relocate (Prod.ext he rfl) with ⟨r', hclash, -⟩ | ⟨-, hrefusal⟩
    · exact absurd (hm.2.2.2.symm.trans hclash) (by simp)
    · exact hrefusal
  constructor
  · intro he
    have hrefusal := reason _ he
    generalize roleOf m.pairs rank = role at hrefusal
    cases hrefusal
  · intro he
    have hrefusal := reason _ he
    generalize hrole : roleOf m.pairs rank = role at hrefusal
    cases hrefusal with
    | leftOver hrank =>
      obtain ⟨hsrc, hdst⟩ := Relocation.notMem_of_bystander hm hrole
      exact not_or.2 ⟨hsrc, hdst⟩ hrank

end Worker

/-- On every rank the check of placements and the relocation come to the same end, whatever the program, the groups, the
value, its type and the settings.  Between suitable placements the relocation never finds a clash nor a rank of a mesh
without a pair, and every rank of a mesh sends, receives or keeps its data.  Between placements of one layout on
different meshes of one shape that do not suit, all ranks find the same clash, of a rank that stands in both meshes at
different positions, and the default strategies are refused as well; programs and groups stay as they were. -/
theorem relocate_agrees_with_relocatable (src dst : Placement) :
    (src.Relocatable dst →
      (∀ (w : Worker) (rank : Rank) (config : Config) (value : ValueId) (type : TensorType) (r : Rank),
        (w.relocate rank config ⟨src, dst, value, type⟩).1 ≠ .error (.clash r) ∧
          (w.relocate rank config ⟨src, dst, value, type⟩).1 ≠ .error (.unpaired r)) ∧
      ∀ rank, rank ∈ src.mesh ∨ rank ∈ dst.mesh →
        (∃ peer, roleOf (src.mesh.pairsWith dst.mesh) rank = .sender peer) ∨
          (∃ peer, roleOf (src.mesh.pairsWith dst.mesh) rank = .receiver peer) ∨
          roleOf (src.mesh.pairsWith dst.mesh) rank = .stationary) ∧
    (src.SameLayout dst → src.mesh.shape = dst.mesh.shape → src.mesh ≠ dst.mesh → ¬src.Relocatable dst →
      ∃ (r : Rank) (i j : Nat), i ≠ j ∧ src.mesh.ids[i]? = some r ∧ dst.mesh.ids[j]? = some r ∧
        ∀ (w : Worker) (rank : Rank) (config : Config) (value : ValueId) (type : TensorType),
          w.Refused (.clash r) (w.relocate rank config ⟨src, dst, value, type⟩) ∧
            w.Refused (.unsupported value src dst)
              (w.relocateWith Strategy.defaults rank config ⟨src, dst, value, type⟩)) := by
  refine ⟨fun hm => ⟨fun w rank config value type r => ?_, fun rank hrank => ?_⟩, fun hlayout hshape hmesh hnot => ?_⟩
  · exact Worker.answer_ne_of_relocatable (m := ⟨src, dst, value, type⟩) hm w rank config r
  · -- The roles do not depend on the value and its type.
    exact Relocation.role_of_mem (m := ⟨src, dst, ⟨0⟩, ⟨[], .f32⟩⟩) hm hrank
  · obtain ⟨r, hclash⟩ := Placement.exists_clash hlayout hshape hmesh hnot
    obtain ⟨i, j, hne, hi, hj⟩ := Mesh.exists_positions_of_clash? hclash
    refine ⟨r, i, j, hne, hi, hj, fun w rank config value type => ⟨?_, ?_⟩⟩
    · exact Worker.refused_of_clash (m := ⟨src, dst, value, type⟩) w rank config hclash
    · exact Worker.refused_of_unsuitable (m := ⟨src, dst, value, type⟩) w rank config hnot

/-- A relocation from the ranks 0 and 1 to the ranks 1 and 2, of which the middle one would have to send and receive. -/
def chained : Relocation where
  src := overlap.src
  dst := Placement.replicated (Mesh.row [1, 2] (by simp)) 1
  value := overlap.value
  type := overlap.type

theorem relocate_agrees_with_relocatable_chained :
    overlap.src.Relocatable overlap.dst ∧
      (Worker.relocate { program := Program.forked } 0 {} overlap).1 ≠ .error (.unpaired 0) ∧
      ¬chained.src.Relocatable chained.dst ∧
      ∃ r, ∀ rank, Worker.Refused { program := Program.forked } (.clash r)
        (Worker.relocate { program := Program.forked } rank {} chained) := by
  have hnot : ¬chained.src.Relocatable chained.dst := by decide
  have haccepted := (relocate_agrees_with_relocatable overlap.src overlap.dst).1 overlap_relocatable
  obtain ⟨r, i, j, -, -, -, hrefused⟩ :=
    (relocate_agrees_with_relocatable chained.src chained.dst).2 (by decide) (by decide) (by decide) hnot
  refine ⟨overlap_relocatable, ?_, hnot, r, fun rank => ?_⟩
  · exact (haccepted.1 { program := Program.forked } 0 {} overlap.value overlap.type 0).2
  · exact (hrefused { program := Program.forked } rank {} chained.value chained.type).1

end CrossMesh
