import CrossMesh.Program.Basic

/-!
# Pruning a program for one rank

A rank does not run placeholders, nor operations placed on a mesh it does not belong to.  `Program.prune` removes
them in rounds: each round removes, from the last to the first, all foreign operations without used results, until
no round finds one.
-/

namespace CrossMesh

/-- An operation that `rank` does not run. -/
def Operation.ForeignTo (o : Operation) (rank : Rank) : Prop :=
  o.IsPlaceholder ∨ ∃ a, o.placement = some a ∧ rank ∉ a.mesh

instance (o : Operation) (rank : Rank) : Decidable (o.ForeignTo rank) :=
  match h : o.placement with
  | none => decidable_of_iff o.IsPlaceholder (by simp [Operation.ForeignTo, h])
  | some a => decidable_of_iff (o.IsPlaceholder ∨ rank ∉ a.mesh) (by simp [Operation.ForeignTo, h])

namespace Program

/-- The foreign operations without used results, the last one first. -/
def prunable (p : Program) (rank : Rank) : List OpId :=
  (p.live.reverse.filter fun u => u.2.ForeignTo rank ∧ u.2.results.all fun v => !p.hasUsers v).map Prod.fst

/-- Removes operations one after the other and answers with them. -/
def removeAll (p : Program) : List OpId → Except ProgramError (List (OpId × Operation) × Program)
  | [] => .ok ([], p)
  | op :: ops =>
    match p.remove op with
    | .error e => .error e
    | .ok (o, q) => (q.removeAll ops).map fun r => ((op, o) :: r.1, r.2)

theorem length_order_removeAll {p q : Program} {ops : List OpId} {removed : List (OpId × Operation)}
    (h : p.removeAll ops = .ok (removed, q)) : q.order.length ≤ p.order.length := by
  induction ops generalizing p removed with
  | nil =>
    obtain ⟨-, rfl⟩ := Prod.mk.inj (Except.ok.inj h)
    exact Nat.le_refl _
  | cons op ops ih =>
    unfold removeAll at h
    split at h
    · exact absurd h (by simp)
    · rename_i o r hr
      cases hs : r.removeAll ops with
      | error e => simp [hs, Except.map] at h
      | ok s =>
        simp only [hs, Except.map, Except.ok.injEq, Prod.mk.injEq] at h
        obtain ⟨-, rfl⟩ := h
        exact Nat.le_trans (ih hs) (Nat.le_of_lt (length_order_remove hr))

theorem length_order_removeAll_cons {p q : Program} {op : OpId} {ops : List OpId}
    {removed : List (OpId × Operation)} (h : p.removeAll (op :: ops) = .ok (removed, q)) :
    q.order.length < p.order.length := by
  unfold removeAll at h
  split at h
  · exact absurd h (by simp)
  · rename_i o r hr
    cases hs : r.removeAll ops with
    | error e => simp [hs, Except.map] at h
    | ok s =>
      simp only [hs, Except.map, Except.ok.injEq, Prod.mk.injEq] at h
      obtain ⟨-, rfl⟩ := h
      exact Nat.lt_of_le_of_lt (length_order_removeAll hs) (length_order_remove hr)

/-- Removes what `rank` does not run and answers with the removed operations, in the order of their removal. -/
def prune (p : Program) (rank : Rank) : Except ProgramError (List (OpId × Operation) × Program) :=
  match p.prunable rank with
  | [] => .ok ([], p)
  | op :: ops =>
    match _ : p.removeAll (op :: ops) with
    | .error e => .error e
    | .ok (removed, q) => (q.prune rank).map fun r => (removed ++ r.1, r.2)
termination_by p.order.length
decreasing_by exact length_order_removeAll_cons ‹_›

end Program

end CrossMesh
