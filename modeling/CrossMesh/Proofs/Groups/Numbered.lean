import CrossMesh.Groups
import Mathlib.Data.List.Nodup

/-!
# Numbered tables of groups

A table that is filled by requests numbers its groups from one, in the order they were made, and has at most one group
for the same ranks and kind.  A group that was once made is what every later request of its ranks and kind gets
(`find?_of_prefix`), and its number leads back to its members (`Numbered.member?_id`).
-/

namespace CrossMesh

namespace Groups

/-- What tells two groups apart. -/
def key (g : RankGroup) : List Rank × GroupKind := (g.ranks, g.kind)

structure Numbered (t : Groups) : Prop where
  ids : t.toList.map RankGroup.id = List.range' 1 t.toList.length
  nextId : t.nextId = t.toList.length + 1
  nodup_keys : (t.toList.map key).Nodup

/-- The member at a place of the group with a number. -/
def member? (t : Groups) (group place : Nat) : Option Rank :=
  (t.toList.find? fun g => g.id = group).bind fun g => g.ranks[place]?

/-- Requests a channel for each member list. -/
def requestAll (t : Groups) (members : List (List Rank)) : Groups :=
  members.foldl (fun t ranks => (t.request ranks .pointToPoint).2) t

theorem requestAll_append (t : Groups) (members more : List (List Rank)) :
    t.requestAll (members ++ more) = (t.requestAll members).requestAll more :=
  List.foldl_append

/-! ### Finding a group -/

theorem find?_eq_some {t : Groups} {ranks : List Rank} {kind : GroupKind} {g : RankGroup}
    (h : t.find? ranks kind = some g) : g ∈ t.toList ∧ g.ranks = ranks ∧ g.kind = kind := by
  unfold find? at h
  exact ⟨List.mem_of_find?_eq_some h, by simpa using List.find?_some h⟩

theorem find?_eq_none {t : Groups} {ranks : List Rank} {kind : GroupKind} (h : t.find? ranks kind = none) :
    (ranks, kind) ∉ t.toList.map key := by
  intro hm
  obtain ⟨g, hg, hkey⟩ := List.mem_map.1 hm
  obtain ⟨hranks, hkind⟩ := Prod.mk.inj hkey
  have := List.find?_eq_none.1 h g hg
  simp [hranks, hkind] at this

/-- A group stays what is found for its ranks and kind while the table grows. -/
theorem find?_of_prefix {t u : Groups} (htu : t.toList <+: u.toList) {ranks : List Rank} {kind : GroupKind}
    {g : RankGroup} (h : t.find? ranks kind = some g) : u.find? ranks kind = some g := by
  obtain ⟨more, hmore⟩ := htu
  unfold find? at h ⊢
  rw [← hmore, List.find?_append, h]
  rfl

/-! ### Requests -/

theorem prefix_request (t : Groups) (ranks : List Rank) (kind : GroupKind) :
    t.toList <+: (t.request ranks kind).2.toList := by
  unfold request
  split
  · exact List.prefix_refl _
  · exact List.prefix_append ..

theorem find?_request (t : Groups) (ranks : List Rank) (kind : GroupKind) :
    (t.request ranks kind).2.find? ranks kind = some (t.request ranks kind).1 := by
  unfold request
  split
  · assumption
  · rename_i hnone
    unfold find? at hnone
    show (t.toList ++ [_]).find? _ = _
    rw [List.find?_append, hnone]
    simp [create]

theorem prefix_requestAll (t : Groups) (members : List (List Rank)) : t.toList <+: (t.requestAll members).toList := by
  induction members generalizing t with
  | nil => exact List.prefix_refl _
  | cons ranks members ih => exact (prefix_request t ranks .pointToPoint).trans (ih _)

theorem mem_keys_request {t : Groups} {ranks : List Rank} {kind : GroupKind} {k : List Rank × GroupKind} :
    k ∈ (t.request ranks kind).2.toList.map key ↔ k ∈ t.toList.map key ∨ k = (ranks, kind) := by
  unfold request
  split
  · rename_i g hg
    obtain ⟨hmem, rfl, rfl⟩ := find?_eq_some hg
    refine (or_iff_left_of_imp ?_).symm
    rintro rfl
    exact List.mem_map_of_mem hmem
  · show k ∈ (t.toList ++ [_]).map key ↔ _
    rw [List.map_append, List.mem_append, List.map_singleton, List.mem_singleton]
    rfl

/-- The groups after some requests are those that were there and those of the requests. -/
theorem mem_keys_requestAll {t : Groups} {members : List (List Rank)} {k : List Rank × GroupKind} :
    k ∈ (t.requestAll members).toList.map key ↔
      k ∈ t.toList.map key ∨ ∃ ranks ∈ members, k = (ranks, .pointToPoint) := by
  induction members generalizing t with
  | nil => simp [requestAll]
  | cons ranks members ih =>
    show k ∈ ((t.request ranks .pointToPoint).2.requestAll members).toList.map key ↔ _
    rw [ih, mem_keys_request, List.exists_mem_cons_iff, or_assoc]

/-! ### The invariant -/

theorem numbered_empty : Numbered {} where
  ids := rfl
  nextId := rfl
  nodup_keys := List.nodup_nil

namespace Numbered

variable {t : Groups}

theorem request (h : t.Numbered) (ranks : List Rank) (kind : GroupKind) : (t.request ranks kind).2.Numbered := by
  unfold Groups.request
  split
  · exact h
  · rename_i hnone
    -- A group is made only if none with its key was found.
    constructor
    · show (t.toList ++ [_]).map RankGroup.id = _
      rw [List.map_append, h.ids]
      simp [create, h.nextId, List.range'_concat, Nat.add_comm]
    · simp [create, h.nextId]
    · show ((t.toList ++ [_]).map key).Nodup
      rw [List.map_append, List.nodup_append]
      refine ⟨h.nodup_keys, List.pairwise_singleton .., ?_⟩
      rintro a ha b hb rfl
      obtain rfl := List.mem_singleton.1 hb
      exact find?_eq_none hnone ha

theorem requestAll (h : t.Numbered) (members : List (List Rank)) : (t.requestAll members).Numbered := by
  induction members generalizing t with
  | nil => exact h
  | cons ranks members ih => exact ih (h.request ranks .pointToPoint)

/-- Which groups there are in the end depends only on what was requested at all. -/
theorem keys_requestAll_congr (h : t.Numbered) {members others : List (List Rank)}
    (hmem : ∀ ranks, ranks ∈ members ↔ ranks ∈ others) :
    ((t.requestAll members).toList.map key).Perm ((t.requestAll others).toList.map key) := by
  refine (List.perm_ext_iff_of_nodup (h.requestAll _).nodup_keys (h.requestAll _).nodup_keys).2 fun k => ?_
  rw [mem_keys_requestAll, mem_keys_requestAll]
  exact or_congr_right (exists_congr fun ranks => and_congr_left' (hmem ranks))

/-- The order of the requests does not matter to which groups there are. -/
theorem keys_requestAll_perm (h : t.Numbered) {members others : List (List Rank)} (hperm : members.Perm others) :
    ((t.requestAll members).toList.map key).Perm ((t.requestAll others).toList.map key) :=
  h.keys_requestAll_congr fun _ => hperm.mem_iff

theorem nodup_ids (h : t.Numbered) : (t.toList.map RankGroup.id).Nodup := by
  rw [h.ids]
  exact List.nodup_range' ..

/-- The number of a group leads to its members. -/
theorem member?_id (h : t.Numbered) {g : RankGroup} (hg : g ∈ t.toList) (place : Nat) :
    t.member? g.id place = g.ranks[place]? := by
  have hfind : (t.toList.find? fun g' => g'.id = g.id) = some g := by
    cases hf : t.toList.find? fun g' => g'.id = g.id with
    | none => exact absurd (List.find?_eq_none.1 hf g hg) (by simp)
    | some g' =>
      have hid : g'.id = g.id := by simpa using List.find?_some hf
      rw [List.inj_on_of_nodup_map h.nodup_ids (List.mem_of_find?_eq_some hf) hg hid]
  unfold member?
  rw [hfind]
  rfl

/-- The number of the group that is found for some ranks leads back to them. -/
theorem member?_find? (h : t.Numbered) {ranks : List Rank} {kind : GroupKind} {g : RankGroup}
    (hg : t.find? ranks kind = some g) (place : Nat) : t.member? g.id place = ranks[place]? := by
  obtain ⟨hmem, hranks, -⟩ := find?_eq_some hg
  rw [h.member?_id hmem, hranks]

end Numbered

end Groups

end CrossMesh
