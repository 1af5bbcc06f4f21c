import CrossMesh.Proofs.Program.Tables

/-!
# Operands that can be used

No call takes the definer of an operand away: a removal is refused while a result is used, and pruning removes only
what no operation that stays uses.  So the operands of an operation that is left are inputs or results of operations
that are left as soon as they were when it was inserted (`run_closed_iff`).  An insertion does not see to that: it asks
whether an operand was ever made, not whether the operation that made it is left (`dangling_not_closed`).
-/

namespace CrossMesh

namespace Program

/-- Every operand of an operation that is left is an input or the result of an operation that is left. -/
def Closed (p : Program) : Prop := ∀ u ∈ p.live, ∀ v ∈ u.2.operands, p.Available v

namespace Coherent

variable {p : Program}

/-- A call that inserts an operation inserts drafts that use values of the program, and the operation is one of them. -/
theorem exists_placed_of_mem_newOps (h : p.Coherent) {a : Action} {op : OpId} (hop : op ∈ p.newOps a) :
    ∃ ds, (∀ d ∈ ds, p.Known d) ∧ p.act a = p.placeAll ds ∧ ∃ o, (op, o) ∈ p.placed ds := by
  rcases h.newOps_cases a with ⟨ds, hds, heq, hnew⟩ | ⟨hnone, -⟩
  · obtain ⟨⟨op, o⟩, hmem, rfl⟩ := List.mem_map.1 (hnew ▸ hop)
    exact ⟨ds, hds, heq, o, hmem⟩
  · exact absurd (hnone ▸ hop) List.not_mem_nil

/-- An inserted operation uses values that were there before the call. -/
theorem operand_lt_of_mem_newOps (h : p.Coherent) {a : Action} {op : OpId} (hop : op ∈ p.newOps a) {o : Operation}
    (ho : (p.act a).op? op = some o) {v : ValueId} (hv : v ∈ o.operands) : v.index < p.values.size := by
  obtain ⟨ds, hds, heq, o', hplaced⟩ := h.exists_placed_of_mem_newOps hop
  rw [heq, h.op?_of_mem_placed (accepts_of_known hds) hplaced] at ho
  obtain rfl := Option.some.inj ho
  obtain ⟨d, hd, hoperands⟩ := exists_draft_of_mem_placed hplaced
  exact hds d hd v (hoperands ▸ hv)

/-- A call that inserts an operation takes none away. -/
theorem available_act (h : p.Coherent) {a : Action} {op : OpId} (hop : op ∈ p.newOps a) {v : ValueId}
    (hv : p.Available v) : (p.act a).Available v := by
  obtain ⟨ds, -, heq, -⟩ := h.exists_placed_of_mem_newOps hop
  rw [heq]
  exact hv.placeAll ds

theorem lt_of_mem_newOps (h : p.Coherent) {a : Action} {op : OpId} (hop : op ∈ p.newOps a) :
    op.index < (p.act a).ops.size :=
  (h.act a).lt_of_mem_order (List.mem_of_mem_filter hop)

/-- While an inserted operation is left, its operands can be used exactly if they could be when it was inserted. -/
theorem available_run_iff (h : p.Coherent) {a : Action} {after : List Action} {u : OpId × Operation}
    (hu : u ∈ ((p.act a).run after).live) (hnew : u.1 ∈ p.newOps a) {v : ValueId} (hv : v ∈ u.2.operands) :
    ((p.act a).run after).Available v ↔ p.Available v := by
  have hact := h.act a
  have hlater := Later.run hact after
  have hlt := h.lt_of_mem_newOps hnew
  have hop := (hact.run after).mem_live_iff.1 hu
  constructor
  · intro havailable
    -- What is left is what was inserted, and so its operands were there before.
    obtain ⟨o, ho, -, hoperands, -⟩ := hlater.exists_op u.1 u.2 hlt hop
    have hold := h.operand_lt_of_mem_newOps hnew ho (hoperands ▸ hv)
    exact ((Later.act h a).trans hlater).available_of h hold havailable
  · intro havailable
    exact hlater.available u.1 u.2 v hlt hop hv (h.available_act hnew havailable)

end Coherent

/-- An operation that several calls inserted was inserted by one of them. -/
theorem exists_of_mem_issuedOps {p : Program} {actions : List Action} {op : OpId} (h : op ∈ p.issuedOps actions) :
    ∃ before a after, actions = before ++ a :: after ∧ op ∈ (p.run before).newOps a := by
  induction actions generalizing p with
  | nil => exact absurd h List.not_mem_nil
  | cons a actions ih =>
    rcases List.mem_append.1 h with h | h
    · exact ⟨[], a, actions, rfl, h⟩
    · obtain ⟨before, b, after, rfl, hb⟩ := ih h
      exact ⟨a :: before, b, after, rfl, hb⟩

/-- Every operation of a program was inserted by one of the calls that built it. -/
theorem mem_issuedOps {actions : List Action} {op : OpId} (h : op.index < (run {} actions).ops.size) :
    op ∈ issuedOps {} actions := by
  have hindex : op.index ∈ (issuedOps {} actions).map OpId.index := by
    rw [coherent_empty.map_index_issuedOps]
    exact List.mem_range'_1.2 ⟨Nat.zero_le _, by simpa using h⟩
  obtain ⟨id, hid, heq⟩ := List.mem_map.1 hindex
  obtain rfl : id = op := by cases id; cases op; exact congrArg OpId.mk heq
  exact hid

/-- After any calls the operands of all operations that are left are inputs or results of operations that are left
exactly if each of these operations had such operands when it was inserted. -/
theorem run_closed_iff (actions : List Action) :
    (run {} actions).Closed ↔ ∀ before a after, actions = before ++ a :: after → ∀ u ∈ (run {} actions).live,
      u.1 ∈ (run {} before).newOps a → ∀ v ∈ u.2.operands, (run {} before).Available v := by
  constructor
  · rintro hclosed before a after rfl u hu hnew v hv
    have havailable := hclosed u hu v hv
    rw [run_append] at hu havailable
    exact ((coherent_empty.run before).available_run_iff hu hnew hv).1 havailable
  · intro hinserted u hu v hv
    have hop := (coherent_empty.run actions).mem_live_iff.1 hu
    obtain ⟨before, a, after, rfl, hnew⟩ := exists_of_mem_issuedOps (mem_issuedOps (lt_of_op?_eq_some hop))
    have havailable := hinserted before a after rfl u hu hnew v hv
    rw [run_append] at hu ⊢
    exact ((coherent_empty.run before).available_run_iff hu hnew hv).2 havailable

/-- An operation that uses what a removed operation made. -/
def dangling : Program :=
  run {} [.addInput ⟨[4], .f32⟩ none,
    .insert { kind := .compute "relu", operands := [⟨0⟩], types := [⟨[4], .f32⟩] },
    .remove ⟨0⟩,
    .insert { kind := .compute "exp", operands := [⟨1⟩], types := [⟨[4], .f32⟩] }]

theorem dangling_not_closed : dangling.Reachable ∧ dangling.op? ⟨0⟩ = none ∧ ¬dangling.Closed := by
  have hnone : dangling.op? ⟨0⟩ = none := rfl
  refine ⟨⟨_, rfl⟩, hnone, fun hclosed => ?_⟩
  obtain ⟨x, hx, hdefiner⟩ := hclosed (⟨1⟩, ⟨.compute "exp", [⟨1⟩], [⟨2⟩], none, none⟩) (by decide) ⟨1⟩ (by decide)
  obtain rfl : x = ⟨⟨[4], .f32⟩, .result ⟨0⟩ 0⟩ := Option.some.inj (hx.symm.trans rfl)
  obtain ⟨o, ho⟩ := hdefiner ⟨0⟩ 0 rfl
  exact absurd (hnone.symm.trans ho) (by simp)

end Program

end CrossMesh
