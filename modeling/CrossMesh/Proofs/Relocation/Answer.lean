import CrossMesh.Proofs.Relocation.Matching

/-!
# What a relocation answers with

A relocation answers with the value that stands for the destination on the worker.  For a placeholder and for a receive
this is a new value that has the type and the placement of the destination.  A rank that keeps its data answers with
the value itself, whatever it is asked to become: its program does not change (`relocate_answer`).
-/

namespace CrossMesh

/-- The value has the type and the placement of the destination. -/
structure Relocation.Arrives (m : Relocation) (p : Program) (v : ValueId) : Prop where
  type_eq : p.valueType v = .ok m.type
  placement_eq : p.valuePlacement v = .ok (some m.dst)

namespace Relocation

variable {m : Relocation} {p : Program}

/-- The only result of a draft with the type and the placement of the destination arrives there. -/
theorem arrives_place {d : Program.Draft} {a : OpPlacement} (htypes : d.types = [m.type])
    (hplacement : d.placement = some a) (hresults : a.results = [m.dst]) : m.Arrives (p.place d) p.nextValue := by
  have hvalue := Program.value?_place_nextValue (p := p) htypes
  constructor
  case type_eq =>
    unfold Program.valueType Program.value
    rw [hvalue]
    rfl
  case placement_eq =>
    unfold Program.valuePlacement Program.value Program.op
    simp [hvalue, Program.op?_place_nextOp, Program.draftOperation, Except.map, hplacement, hresults]

/-- The value that a role other than that of a stationary rank answers with is new and arrives at the destination. -/
theorem Part.arrives {t : Groups} {rank : Rank} {config : Config} {role : Role} {ds : List Program.Draft} {v : ValueId}
    (h : m.Part p t rank config role ds v) (hrole : role ≠ .stationary) :
    (p.placeAll ds).Available v ∧ m.Arrives (p.placeAll ds) v := by
  have placeholder : ∀ q : Program, (q.place m.placeholderDraft).Available q.nextValue ∧
      m.Arrives (q.place m.placeholderDraft) q.nextValue :=
    fun q => ⟨Program.available_place_nextValue rfl, arrives_place rfl rfl rfl⟩
  cases h with
  | @sender peer g chunk hg hchunk =>
    -- The send before the placeholder makes no value.
    have hnext := Program.nextValue_place (p := p) (d := m.sendDraft g.id chunk config.stream) rfl
    exact hnext ▸ placeholder (p.place (m.sendDraft g.id chunk config.stream))
  | receiver hg htype => exact ⟨Program.available_place_nextValue rfl, arrives_place rfl rfl rfl⟩
  | stationary => exact absurd rfl hrole
  | bystander hsrc hdst hvalue => exact placeholder p

end Relocation

/-- A relocation of a value that can be used answers with a value that can be used.  On a sender, a receiver and a
bystander that value has exactly the type and the placement of the destination.  A rank that keeps its data answers
with the value itself and leaves its program alone. -/
theorem relocate_answer {w w' : Worker} {rank : Rank} {config : Config} {m : Relocation} {v : ValueId}
    (hvalue : w.program.Available m.value) (h : w.relocate rank config m = (.ok v, w')) :
    w'.program.Available v ∧
      (roleOf m.pairs rank ≠ .stationary → m.Arrives w'.program v) ∧
      (roleOf m.pairs rank = .stationary → v = m.value ∧ w'.program = w.program) := by
  obtain ⟨-, -, ds, hpart, hprogram⟩ := Worker.relocate_eq_ok h
  by_cases hrole : roleOf m.pairs rank = .stationary
  · rw [hrole] at hpart
    cases hpart with
    | stationary =>
      have hkept : w'.program = w.program := hprogram
      exact ⟨hkept ▸ hvalue, fun hnot => absurd hrole hnot, fun _ => ⟨rfl, hkept⟩⟩
  · obtain ⟨havailable, harrives⟩ := hpart.arrives hrole
    rw [hprogram]
    exact ⟨havailable, fun _ => harrives, fun hstay => absurd hstay hrole⟩

theorem relocate_answer_overlap : ∃ v w',
    Worker.relocate { program := Program.forked } 0 {} overlap = (.ok v, w') ∧ overlap.Arrives w'.program v := by
  obtain ⟨v, w', hok⟩ := Worker.exists_relocate { program := Program.forked } 0 {} overlap_relocatable.2.2.2
    Program.forked_available (fun _ _ => by decide) (by decide)
  exact ⟨v, w', hok, (relocate_answer Program.forked_available hok).2.1 (by decide)⟩

/-- The second rank of `overlap` keeps a value of another size. -/
theorem stays_overlap : ∃ w', Worker.relocate { program := Program.forked } 1 {} overlap = (.ok ⟨0⟩, w') ∧
    Program.forked.Available overlap.value ∧ w'.program.valueType ⟨0⟩ = .ok ⟨[2], .f32⟩ ∧
    w'.program.valuePlacement ⟨0⟩ = .ok none ∧ ¬overlap.Arrives w'.program ⟨0⟩ := by
  refine ⟨_, rfl, Program.forked_available, rfl, rfl, fun h => ?_⟩
  exact absurd h.type_eq (by decide)

end CrossMesh
