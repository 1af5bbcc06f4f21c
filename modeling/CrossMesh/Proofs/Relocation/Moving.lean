import CrossMesh.Proofs.Placement.Suitable
import CrossMesh.Proofs.Relocation.Matching
import Mathlib.Data.List.Forall2

/-!
# What an accepted relocation moves

The default strategies accept a relocation only between different meshes.  Meshes are different already if their axes
have different names, and then every rank may stand at the same position of both: such a relocation is accepted and
moves nothing (`nothing_moves_renamed`).  In every other accepted relocation some pair has two ranks, and when all
ranks of the meshes have done their part one of them sends and another receives what it sends (`accepted_moves_iff`).
-/

namespace CrossMesh

namespace Mesh

/-- The meshes differ in nothing but the names of their axes. -/
def Renamed (mesh other : Mesh) : Prop :=
  mesh.ids = other.ids ∧ mesh.shape = other.shape ∧ mesh.axes ≠ other.axes

/-- Meshes of one size pair every rank with itself exactly if they list the same ranks in the same order. -/
theorem ids_eq_iff {src dst : Mesh} (hlen : src.ids.length = dst.ids.length) :
    src.ids = dst.ids ↔ ¬∃ a b, (a, b) ∈ src.pairsWith dst ∧ a ≠ b := by
  rw [← List.forall₂_eq_eq_eq, List.forall₂_iff_zip, and_iff_right hlen]
  constructor
  · rintro hsame ⟨a, b, hmem, hne⟩
    exact hne (hsame hmem)
  · intro hnone a b hmem
    by_contra hne
    exact hnone ⟨a, b, hmem, hne⟩

end Mesh

theorem choose?_defaults_eq_some_iff {src dst : Placement} {s : Strategy} :
    Strategy.choose? Strategy.defaults src dst = some s ↔ src.Relocatable dst ∧ s = Strategy.sameLayout := by
  by_cases hm : src.Relocatable dst <;>
    simp [Strategy.choose?, Strategy.defaults, Strategy.sameLayout, hm, eq_comm]

/-- Suitable meshes list the same ranks in the same order exactly if they are renamed. -/
theorem Placement.Relocatable.ids_eq_iff_renamed {src dst : Placement} (h : src.Relocatable dst) :
    src.mesh.ids = dst.mesh.ids ↔ src.mesh.Renamed dst.mesh := by
  obtain ⟨-, hmesh, hshape, -⟩ := h
  refine ⟨fun hids => ⟨hids, hshape, fun haxes => hmesh ?_⟩, And.left⟩
  rw [Mesh.eq_iff, hids, hshape, haxes]

namespace Relocation

variable {m : Relocation} {config : Config} {workers : Rank → Worker}

/-- All ranks of both meshes relocate the value with the default strategies and succeed, each on a program and with
groups of its own. -/
structure Completed (m : Relocation) (config : Config) (workers : Rank → Worker) : Prop where
  program : ∀ r, r ∈ m.src.mesh ∨ r ∈ m.dst.mesh → (workers r).program.Reachable
  groups : ∀ r, r ∈ m.src.mesh ∨ r ∈ m.dst.mesh → (workers r).groups.Reachable
  succeeds : ∀ r, r ∈ m.src.mesh ∨ r ∈ m.dst.mesh →
    ∃ v, ((workers r).relocateWith Strategy.defaults r config m).1 = .ok v

/-- One rank adds a send to another one, and this one adds the receive from it. -/
def HandsOver (m : Relocation) (config : Config) (workers : Rank → Worker) : Prop :=
  ∃ a ∈ m.src.mesh, ∃ b ∈ m.dst.mesh, a ≠ b ∧
    sendEdges ((workers a).relocated a config m).groups a ((workers a).relocating a config m) = [(some a, some b)] ∧
    receiveEdges ((workers b).relocated b config m).groups b ((workers b).relocating b config m) = [(some a, some b)]

/-- The two ranks of a pair hand the value over. -/
theorem Completed.handsOver (h : m.Completed config workers) (hm : m.src.Relocatable m.dst) {a b : Rank}
    (hpair : (a, b) ∈ m.pairs) (hne : a ≠ b) : m.HandsOver config workers := by
  have hpairs := pairwise_apart hm
  have ha : roleOf m.pairs a = .sender b := (roleOf_eq_sender_iff hpairs).2 ⟨hpair, Ne.symm hne⟩
  have hb : roleOf m.pairs b = .receiver a := (roleOf_eq_receiver_iff hpairs).2 ⟨hpair, hne⟩
  obtain ⟨hsrc, hdst⟩ := List.of_mem_zip hpair
  have hedges : ∀ r, r ∈ m.src.mesh ∨ r ∈ m.dst.mesh →
      sendEdges ((workers r).relocated r config m).groups r ((workers r).relocating r config m) =
          (roleOf m.pairs r).sends r ∧
        receiveEdges ((workers r).relocated r config m).groups r ((workers r).relocating r config m) =
          (roleOf m.pairs r).receives r := by
    intro r hr
    obtain ⟨v, hok⟩ := h.succeeds r hr
    exact Worker.edges_of_relocateWith_eq_ok hm hok (h.program r hr).coherent (h.groups r hr).numbered
  have hsends := (hedges a (.inl hsrc)).1
  have hreceives := (hedges b (.inr hdst)).2
  rw [ha] at hsends
  rw [hb] at hreceives
  exact ⟨a, hsrc, b, hdst, hne, hsends, hreceives⟩

end Relocation

/-- A rank that keeps its data keeps its program. -/
theorem Worker.program_relocated_of_stationary {m : Relocation} (hm : m.src.Relocatable m.dst) (w : Worker)
    {rank : Rank} (hrole : roleOf m.pairs rank = .stationary) (config : Config) :
    (w.relocated rank config m).program = w.program := by
  have hclash : clash? m.pairs = none := hm.2.2.2
  obtain ⟨journal, hprep⟩ := prepared_eq (w.note (.strategyChosen m.value "same_status")) rank config m
  rw [relocated, relocateWith_defaults hm]
  simp only [relocate, hclash, hrole, perform, hprep]
  rfl

/-- A relocation that the default strategies accept pairs two different ranks unless its meshes differ in nothing but
the names of their axes, and between meshes that differ in nothing at all none is accepted.  When all ranks of the
meshes have relocated the value, one of them sends and another one receives what it sends; if only the names of the
axes differ, no rank has changed its program. -/
theorem accepted_moves_iff {src dst : Placement} {s : Strategy}
    (hs : Strategy.choose? Strategy.defaults src dst = some s) :
    ((∃ a b, (a, b) ∈ src.mesh.pairsWith dst.mesh ∧ a ≠ b) ↔ ¬src.mesh.Renamed dst.mesh) ∧
      (src.mesh.ids = dst.mesh.ids → src.mesh.shape = dst.mesh.shape → src.mesh.axes ≠ dst.mesh.axes) ∧
      ∀ (value : ValueId) (type : TensorType) (config : Config) (workers : Rank → Worker),
        (⟨src, dst, value, type⟩ : Relocation).Completed config workers →
          (¬src.mesh.Renamed dst.mesh → (⟨src, dst, value, type⟩ : Relocation).HandsOver config workers) ∧
          (src.mesh.Renamed dst.mesh → ∀ r ∈ src.mesh,
            ((workers r).relocated r config ⟨src, dst, value, type⟩).program = (workers r).program) := by
  obtain ⟨hm, -⟩ := choose?_defaults_eq_some_iff.1 hs
  have hlen := Mesh.length_ids_of_shape_eq hm.2.2.1
  have hmoves : (∃ a b, (a, b) ∈ src.mesh.pairsWith dst.mesh ∧ a ≠ b) ↔ ¬src.mesh.Renamed dst.mesh := by
    rw [← hm.ids_eq_iff_renamed, Mesh.ids_eq_iff hlen, not_not]
  refine ⟨hmoves, fun hids _ => (hm.ids_eq_iff_renamed.1 hids).2.2, ?_⟩
  intro value type config workers hrun
  constructor
  · intro hrenamed
    obtain ⟨a, b, hpair, hne⟩ := hmoves.2 hrenamed
    exact hrun.handsOver hm hpair hne
  · intro hrenamed r hr
    have hpair : (r, r) ∈ src.mesh.pairsWith dst.mesh := by
      obtain ⟨i, hi⟩ := List.mem_iff_getElem?.1 (Mesh.mem_iff.1 hr)
      exact List.mem_iff_getElem?.2 ⟨i, Mesh.getElem?_pairsWith.2 ⟨hi, hrenamed.1 ▸ hi⟩⟩
    have hrole := (roleOf_eq_stationary_iff (Relocation.pairwise_apart (m := ⟨src, dst, value, type⟩) hm)).2 hpair
    exact Worker.program_relocated_of_stationary hm (workers r) hrole config

/-- All ranks of `overlap` relocate the value: the first one sends it to the third one. -/
theorem accepted_moves_iff_overlap :
    ¬overlap.src.mesh.Renamed overlap.dst.mesh ∧
      overlap.HandsOver {} (fun _ => { program := .forked }) := by
  have hs : Strategy.choose? Strategy.defaults overlap.src overlap.dst = some Strategy.sameLayout :=
    choose?_defaults_eq_some_iff.2 ⟨overlap_relocatable, rfl⟩
  have hrun : overlap.Completed {} (fun _ => { program := .forked }) := by
    refine ⟨fun _ _ => Program.forked_reachable, fun _ _ => ⟨[], rfl⟩, fun r _ => ?_⟩
    obtain ⟨v, w', ds, hok, -⟩ := Worker.exists_relocateWith overlap_relocatable (by decide)
      (w := { program := .forked }) Program.forked_available r {}
    exact ⟨v, congrArg Prod.fst hok⟩
  obtain ⟨hmoves, -, hruns⟩ := accepted_moves_iff hs
  have hdiffer : ¬overlap.src.mesh.Renamed overlap.dst.mesh := hmoves.1 ⟨0, 2, by decide, by decide⟩
  exact ⟨hdiffer, (hruns overlap.value overlap.type {} _ hrun).1 hdiffer⟩

/-- A relocation from the ranks 0 and 1 to the same ranks on a mesh whose axis has another name. -/
def renamed : Relocation where
  src := overlap.src
  dst := overlap.src.onMesh { overlap.src.mesh with axes := ["y"], length_axes := rfl }
  value := overlap.value
  type := overlap.type

/-- The meshes can be built and the relocation is accepted, but it pairs each rank with itself, and no rank adds an
operation. -/
theorem nothing_moves_renamed :
    Mesh.build [0, 1] [2] [(0, "x")] = .ok renamed.src.mesh ∧ Mesh.build [0, 1] [2] [(0, "y")] = .ok renamed.dst.mesh ∧
      (Strategy.choose? Strategy.defaults renamed.src renamed.dst).map Strategy.name = some "same_status" ∧
      (¬∃ a b, (a, b) ∈ renamed.pairs ∧ a ≠ b) ∧
      ∀ r ∈ [0, 1], (Worker.relocateWith { program := .forked } Strategy.defaults r {} renamed).1 = .ok ⟨0⟩ ∧
        Worker.relocating { program := .forked } r {} renamed = [] := by
  refine ⟨by decide, by decide, rfl, ?_, by decide⟩
  rintro ⟨a, b, hmem, hne⟩
  have hends : (a, b) ∈ [(0, 0), (1, 1)] := hmem
  grind

end CrossMesh
