import CrossMesh.Proofs.Program.Pinned
import CrossMesh.Proofs.Program.Tape

/-!
# Where insertions go

As long as the insertion point is not moved, it stays between the same two sides: what is inserted goes to the end of
the left side, and of both sides only what is removed goes away (`Coherent.left_run`, `Coherent.right_run`).  So what is
inserted after the point was set right before an operation ends up right before it, in the order of the insertions.
-/

namespace CrossMesh

namespace Program

namespace Coherent

variable {p : Program}

/-- An operation that is left was left before; none comes back. -/
theorem mem_order_of_run (hp : p.Coherent) {actions : List Action} {op : OpId} (hlt : op.index < p.ops.size)
    (h : op ∈ (p.run actions).order) : op ∈ p.order := by
  obtain ⟨o, ho⟩ := ((hp.run actions).mem_order_iff op).1 h
  obtain ⟨o', ho', -⟩ := (Later.run hp actions).exists_op op o hlt ho
  exact (hp.mem_order_iff op).2 ⟨o', ho'⟩

/-- What two sides keep of two lists is what is on them of these lists. -/
private theorem filter_mem_append {l r l' r' : List OpId} {keeps : OpId → Bool} (hl : l' = l.filter keeps)
    (hr : r' = r.filter keeps) : l' = l.filter (· ∈ l' ++ r') ∧ r' = r.filter (· ∈ l' ++ r') := by
  have hkeeps : ∀ x, x ∈ l ∨ x ∈ r → keeps x = decide (x ∈ l' ++ r') := by
    intro x hx
    rw [Bool.eq_iff_iff, decide_eq_true_eq, hl, hr, List.mem_append, List.mem_filter, List.mem_filter, ← or_and_right]
    exact (and_iff_right hx).symm
  constructor
  · exact hl.trans (List.filter_congr fun x hx => hkeeps x (.inl hx))
  · exact hr.trans (List.filter_congr fun x hx => hkeeps x (.inr hx))

/-- A call that does not move the insertion point inserts at the end of the left side, and both sides lose only what is
removed. -/
theorem sides_act (hp : p.Coherent) {a : Action} (h : ∀ e ∈ p.edits a, ¬e.Moves) :
    (p.act a).left = (p.left ++ p.newOps a).filter (· ∈ (p.act a).order) ∧
      (p.act a).right = p.right.filter (· ∈ (p.act a).order) := by
  -- It is enough that each side is told by one property of its operations.
  suffices hkept : ∃ keeps : OpId → Bool, (p.act a).tape =
      ⟨(p.left ++ p.newOps a).filter keeps, p.right.filter keeps⟩ by
    obtain ⟨keeps, htape⟩ := hkept
    rw [← left_append_right (p.act a)]
    exact filter_mem_append (congrArg Tape.left htape) (congrArg Tape.right htape)
  have htape := hp.tape_act a
  rcases hp.edits_cases a with ⟨ds, hds, heq, hinserted⟩ | ⟨ops, removed, hall, hremoved⟩ | ⟨e, hmoves, hmoved, -⟩ |
    ⟨hnone, -⟩
  · refine ⟨fun _ => true, ?_⟩
    rw [htape, hinserted, Tape.editAll_insert, hp.newOps_of_placeAll hds heq, List.filter_true, List.filter_true]
    rfl
  · refine ⟨(· ∉ removed.map Prod.fst), ?_⟩
    rw [htape, hremoved, Tape.editAll_remove, newOps_eq_nil (hp.order_subset_of_removeAll hall), List.append_nil]
    rfl
  · exact absurd hmoves (h e (hmoved ▸ List.mem_singleton_self e))
  · have hsame : (p.act a).tape = p.tape := by rw [htape, hnone]; rfl
    have horder : (p.act a).order = p.order := by rw [← tape_order, hsame, tape_order]
    refine ⟨fun _ => true, ?_⟩
    rw [hsame, newOps_eq_nil (fun op hop => horder ▸ hop), List.append_nil, List.filter_true, List.filter_true]
    rfl

/-- Calls that do not move the insertion point insert at the end of the left side, and both sides lose only what is
removed. -/
theorem sides_run (hp : p.Coherent) {actions : List Action} (h : ∀ e ∈ p.allEdits actions, ¬e.Moves) :
    (p.run actions).left = (p.left ++ p.issuedOps actions).filter (· ∈ (p.run actions).order) ∧
      (p.run actions).right = p.right.filter (· ∈ (p.run actions).order) := by
  induction actions generalizing p with
  | nil =>
    have hkeeps : ∀ l : List OpId, (∀ op ∈ l, op ∈ p.order) → l.filter (· ∈ p.order) = l :=
      fun l hl => List.filter_eq_self.2 fun op hop => decide_eq_true (hl op hop)
    show p.left = (p.left ++ []).filter (· ∈ p.order) ∧ p.right = p.right.filter (· ∈ p.order)
    rw [List.append_nil, hkeeps p.left fun op => List.mem_of_mem_take, hkeeps p.right fun op => List.mem_of_mem_drop]
    exact ⟨rfl, rfl⟩
  | cons a actions ih =>
    rw [allEdits, List.forall_mem_append] at h
    have hact := hp.act a
    obtain ⟨hleft, hright⟩ := hp.sides_act h.1
    obtain ⟨hleft', hright'⟩ := ih hact h.2
    -- What is there in the end was there after the first call, or it was inserted since.
    have hkept : ∀ l : List OpId, (∀ op ∈ l, op.index < (p.act a).ops.size) →
        (l.filter (· ∈ (p.act a).order)).filter (· ∈ ((p.act a).run actions).order) =
          l.filter (· ∈ ((p.act a).run actions).order) := by
      intro l hl
      rw [List.filter_filter]
      refine List.filter_congr fun op hop => ?_
      rw [Bool.eq_iff_iff, Bool.and_eq_true, decide_eq_true_eq, decide_eq_true_eq]
      exact and_iff_left_of_imp fun hend => hact.mem_order_of_run (hl op hop) hend
    have hold : ∀ op ∈ p.order, op.index < (p.act a).ops.size := fun op hop =>
      Nat.lt_of_lt_of_le (hp.lt_of_mem_order hop) (Later.act hp a).size_ops_le
    have hnew : ∀ op ∈ p.newOps a, op.index < (p.act a).ops.size := fun op hop =>
      hact.lt_of_mem_order (List.mem_of_mem_filter hop)
    show ((p.act a).run actions).left =
        (p.left ++ (p.newOps a ++ (p.act a).issuedOps actions)).filter (· ∈ ((p.act a).run actions).order) ∧
      ((p.act a).run actions).right = p.right.filter (· ∈ ((p.act a).run actions).order)
    constructor
    · rw [hleft', hleft, List.filter_append, hkept, ← List.filter_append, List.append_assoc]
      intro op hop
      rcases List.mem_append.1 hop with hop | hop
      · exact hold op (List.mem_of_mem_take hop)
      · exact hnew op hop
    · rw [hright', hright, hkept]
      exact fun op hop => hold op (List.mem_of_mem_drop hop)

/-! ### Setting the insertion point -/

/-- An operation stands behind as many operations as the execution order has before it. -/
theorem position_of_split (hp : p.Coherent) {front rest : List OpId} {op : OpId} (h : p.order = front ++ op :: rest) :
    p.position op = .ok front.length := by
  have hnodup : (op :: (front ++ rest)).Nodup := List.nodup_middle.1 (h ▸ hp.nodup_order)
  have hfront : op ∉ front := fun hop => (List.nodup_cons.1 hnodup).1 (List.mem_append_left _ hop)
  rw [position_eq_ok_iff, h, List.idxOf?_eq_some_iff]
  refine ⟨by simp, by simp, fun j hj heq => ?_⟩
  rw [List.getElem_append_left hj] at heq
  exact hfront (heq ▸ List.getElem_mem hj)

/-- An insertion point right before an operation tears the execution order there. -/
theorem exists_before (hp : p.Coherent) {front rest : List OpId} {op : OpId} (h : p.order = front ++ op :: rest) :
    ∃ q, p.before op = .ok q ∧ q.Coherent ∧ q.left = front ∧ q.right = op :: rest := by
  have hq : p.before op = .ok { p with cursor := some front.length } := by
    unfold before
    rw [hp.position_of_split h]
    rfl
  have hcoherent : (p.act (.before op)).Coherent := hp.act (.before op)
  simp only [Program.act, hq] at hcoherent
  refine ⟨_, hq, hcoherent, ?_, ?_⟩
  · show p.order.take front.length = front
    rw [h, List.take_left' rfl]
  · show p.order.drop front.length = op :: rest
    rw [h, List.drop_left' rfl]

/-- An insertion point right behind the last operation is at the end. -/
theorem after_last (hp : p.Coherent) {front : List OpId} {op : OpId} (h : p.order = front ++ [op]) :
    p.after op = .ok p.atEnd.pinned := by
  have hlength : p.atEnd.cut = front.length + 1 := by
    show p.order.length = _
    rw [h, List.length_append, List.length_singleton]
  unfold after pinned
  rw [hp.position_of_split h, hlength]
  rfl

/-- What is inserted after the insertion point was set right before an operation stands right before it, in the order of
the insertions, as long as the point is not moved and the operation is left. -/
theorem order_run_of_right (hp : p.Coherent) {op : OpId} {rest : List OpId} (h : p.right = op :: rest)
    {actions : List Action} (hstays : ∀ e ∈ p.allEdits actions, ¬e.Moves) (hop : op ∈ (p.run actions).order) :
    (p.run actions).order = (p.left ++ p.issuedOps actions).filter (· ∈ (p.run actions).order) ++
      op :: rest.filter (· ∈ (p.run actions).order) := by
  obtain ⟨hleft, hright⟩ := hp.sides_run hstays
  have hkept : (op :: rest).filter (· ∈ (p.run actions).order) = op :: rest.filter (· ∈ (p.run actions).order) :=
    List.filter_cons_of_pos (decide_eq_true hop)
  rw [h, hkept] at hright
  rw [← hleft, ← hright, left_append_right]

end Coherent

/-- Whatever calls are made, the execution order is the tape that the edits of the calls make of the empty one, and the
insertion point is where the tape is torn.  After the point was set right before an operation, and as long as it is not
moved and the operation is left, the execution order is what is left of the operations before that one and of those
inserted since, in the order of the insertions, then the operation itself and what is left of those behind it.  Whether
the insertion point is behind the last operation or not set, no calls tell. -/
theorem run_tape (actions : List Action) :
    (run {} actions).order = (Tape.editAll {} (allEdits {} actions)).left ++
        (Tape.editAll {} (allEdits {} actions)).right ∧
      (run {} actions).cut = (Tape.editAll {} (allEdits {} actions)).left.length ∧
      (∀ front op rest, (run {} actions).order = front ++ op :: rest → ∃ q, (run {} actions).before op = .ok q ∧
        ∀ more, (∀ e ∈ q.allEdits more, ¬e.Moves) → op ∈ (q.run more).order →
          (q.run more).order = (front ++ q.issuedOps more).filter (· ∈ (q.run more).order) ++
            op :: rest.filter (· ∈ (q.run more).order)) ∧
      ∀ front op, (run {} actions).order = front ++ [op] → ∃ q, (run {} actions).after op = .ok q ∧
        ∀ more, (q.trace more).map Report.pinned = ((run {} actions).atEnd.trace more).map Report.pinned := by
  have hp : (run {} actions).Coherent := coherent_empty.run actions
  have htape : (run {} actions).tape = Tape.editAll {} (allEdits {} actions) := coherent_empty.tape_run actions
  refine ⟨?_, ?_, ?_, ?_⟩
  · rw [← htape]
    exact (left_append_right _).symm
  · rw [← htape]
    exact (length_left hp.cursorInside).symm
  · intro front op rest h
    obtain ⟨q, hq, hcoherent, rfl, hright⟩ := hp.exists_before h
    exact ⟨q, hq, fun more hstays hop => hcoherent.order_run_of_right hright hstays hop⟩
  · intro front op h
    exact ⟨_, hp.after_last h, fun more => trace_eq_of_pinned_eq (pinned_pinned _) more⟩

/-- Two insertions and in between the removal of the last operation of `forked`. -/
def insertTwice : List Action :=
  [.insert { kind := .compute "d", operands := [⟨1⟩], types := [] }, .remove ⟨2⟩,
    .insert { kind := .compute "e", operands := [⟨1⟩], types := [] }]

/-- After the insertion point was set right before the operation 1, the operations 3 and 4 are inserted there. -/
theorem run_tape_forked : ∃ q, forked.before ⟨1⟩ = .ok q ∧ (∀ e ∈ q.allEdits insertTwice, ¬e.Moves) ∧
    (q.run insertTwice).order = (⟨0⟩ :: q.issuedOps insertTwice).filter (· ∈ (q.run insertTwice).order) ++
      ⟨1⟩ :: ([⟨2⟩] : List OpId).filter (· ∈ (q.run insertTwice).order) ∧
    (q.run insertTwice).order = [⟨0⟩, ⟨3⟩, ⟨4⟩, ⟨1⟩] := by
  obtain ⟨actions, hforked⟩ := forked_reachable
  have hrun := (run_tape actions).2.2.1
  rw [hforked] at hrun
  obtain ⟨q, hq, horder⟩ := hrun [⟨0⟩] ⟨1⟩ [⟨2⟩] rfl
  have hset : forked.before ⟨1⟩ = .ok { forked with cursor := some 1 } := rfl
  obtain rfl := Except.ok.inj (hset.symm.trans hq)
  have hstays : ∀ e ∈ allEdits { forked with cursor := some 1 } insertTwice, ¬e.Moves := by decide
  exact ⟨_, hset, hstays, horder insertTwice hstays (by decide), by decide⟩

end Program

end CrossMesh
