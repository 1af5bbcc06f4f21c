import CrossMesh.Proofs.Groups.Numbered

/-!
# Groups that a table provides

Requests make the groups that the table does not provide and leave those it provides alone: they make nothing exactly
if all their groups were there (`requestAll_eq_self_iff`), which is so from the first time they were made on
(`provides_requestAll`, `Provides.of_prefix`).  Of a numbered table `Numbered.exists_added` says which groups
requests add to it.
-/

namespace CrossMesh

namespace Groups

variable {t u : Groups} {members others : List (List Rank)}

/-- The groups of all these member lists were made. -/
def Provides (t : Groups) (members : List (List Rank)) : Prop :=
  ∀ ranks ∈ members, (ranks, GroupKind.pointToPoint) ∈ t.toList.map key

theorem exists_find?_of_mem_keys {ranks : List Rank} {kind : GroupKind} (h : (ranks, kind) ∈ t.toList.map key) :
    ∃ g, t.find? ranks kind = some g := by
  cases hfind : t.find? ranks kind with
  | none => exact absurd h (find?_eq_none hfind)
  | some g => exact ⟨g, rfl⟩

/-- Requests make no group exactly if all their groups were made. -/
theorem requestAll_eq_self_iff : t.requestAll members = t ↔ t.Provides members := by
  constructor
  · intro h ranks hranks
    rw [← h, mem_keys_requestAll]
    exact .inr ⟨ranks, hranks, rfl⟩
  · intro h
    induction members with
    | nil => rfl
    | cons ranks members ih =>
      obtain ⟨hfirst, hrest⟩ := List.forall_mem_cons.1 h
      obtain ⟨g, hg⟩ := exists_find?_of_mem_keys hfirst
      have hreq : (t.request ranks .pointToPoint).2 = t := by simp only [request, hg]
      show (t.request ranks .pointToPoint).2.requestAll members = t
      rw [hreq]
      exact ih hrest

theorem provides_requestAll (t : Groups) (members : List (List Rank)) : (t.requestAll members).Provides members :=
  fun ranks hranks => mem_keys_requestAll.2 (.inr ⟨ranks, hranks, rfl⟩)

theorem Provides.of_prefix (h : t.Provides members) (htu : t.toList <+: u.toList) : u.Provides members :=
  fun ranks hranks => (htu.map key).subset (h ranks hranks)

theorem Provides.subset (h : t.Provides members) (hsub : others ⊆ members) : t.Provides others :=
  fun ranks hranks => h ranks (hsub hranks)

namespace Numbered

/-- Requests add the groups that were missing, each once. -/
theorem exists_added (h : t.Numbered) (members : List (List Rank)) : ∃ added,
    (t.requestAll members).toList = t.toList ++ added ∧ (added.map key).Nodup ∧
      ∀ k, k ∈ added.map key ↔ k ∉ t.toList.map key ∧ ∃ ranks ∈ members, k = (ranks, .pointToPoint) := by
  obtain ⟨added, hadded⟩ := prefix_requestAll t members
  have hnodup := (h.requestAll members).nodup_keys
  rw [← hadded, List.map_append, List.nodup_append] at hnodup
  obtain ⟨-, hnew, hapart⟩ := hnodup
  refine ⟨added, hadded.symm, hnew, fun k => ?_⟩
  have hkeys : k ∈ t.toList.map key ∨ k ∈ added.map key ↔
      k ∈ t.toList.map key ∨ ∃ ranks ∈ members, k = (ranks, .pointToPoint) := by
    rw [← mem_keys_requestAll, ← hadded, List.map_append, List.mem_append]
  constructor
  · intro hk
    have hold : k ∉ t.toList.map key := fun hold => hapart k hold k hk rfl
    exact ⟨hold, (hkeys.1 (.inr hk)).resolve_left hold⟩
  · rintro ⟨hold, hrequested⟩
    exact (hkeys.2 (.inr hrequested)).resolve_left hold

end Numbered

end Groups

end CrossMesh
