import CrossMesh.Mesh
import Mathlib.Data.List.Induction
import Mathlib.Data.List.Nodup

/-!
# Names of axes

The axes of a mesh are named by assignments of an index to a name, and `lastIndex?` is the index a name is given last.
The table made from the assignments holds these indices, each name once (`tabulates_axisTable`).  A table is used up
entry by entry, each name going to the slot of its index: all names find a slot unless their indices conflict
(`not_conflicting_of_fillAxes`, `conflict_of_fillAxes`), whatever the order of the entries, and fill all of them exactly
if every axis has a name (`length_axes_eq_iff`).
-/

namespace CrossMesh

variable {table : List (String × Nat)} {index? : String → Option Nat}

/-! ### The table of the assignments -/

/-- The index that a name is given last. -/
def lastIndex? (assignments : List (Nat × String)) (name : String) : Option Nat :=
  (assignments.findRev? fun a => a.2 = name).map Prod.fst

/-- The table holds the index of every name that has one, each name once, in any order. -/
structure Tabulates (table : List (String × Nat)) (index? : String → Option Nat) : Prop where
  nodup_names : (table.map Prod.fst).Nodup
  mem_iff : ∀ name index, (name, index) ∈ table ↔ index? name = some index

theorem Tabulates.perm {other : List (String × Nat)} (h : Tabulates table index?) (hperm : table.Perm other) :
    Tabulates other index? where
  nodup_names := (hperm.map Prod.fst).nodup_iff.1 h.nodup_names
  mem_iff name index := hperm.mem_iff.symm.trans (h.mem_iff name index)

theorem lastIndex?_concat (assignments : List (Nat × String)) (a : Nat × String) (name : String) :
    lastIndex? (assignments ++ [a]) name = if a.2 = name then some a.1 else lastIndex? assignments name := by
  unfold lastIndex?
  rw [List.findRev?_eq_find?_reverse, List.findRev?_eq_find?_reverse, List.reverse_concat, List.find?_cons]
  by_cases h : a.2 = name <;> simp [h]

theorem axisTable_concat (assignments : List (Nat × String)) (a : Nat × String) :
    axisTable (assignments ++ [a]) = assignAxis (axisTable assignments) a.2 a.1 := by
  simp [axisTable]

private theorem mem_names_assignAxis {name x : String} {index : Nat} :
    x ∈ (assignAxis table name index).map Prod.fst ↔ x = name ∨ x ∈ table.map Prod.fst := by
  induction table with
  | nil => simp [assignAxis]
  | cons first rest ih =>
    obtain ⟨n, i⟩ := first
    unfold assignAxis
    by_cases heq : n = name
    · subst heq
      simp
    · rw [if_neg heq, List.map_cons, List.map_cons, List.mem_cons, List.mem_cons, ih]
      exact or_left_comm

private theorem nodup_names_assignAxis {name : String} {index : Nat} (h : (table.map Prod.fst).Nodup) :
    ((assignAxis table name index).map Prod.fst).Nodup := by
  induction table with
  | nil => simp [assignAxis]
  | cons first rest ih =>
    obtain ⟨n, i⟩ := first
    obtain ⟨hn, hrest⟩ := List.nodup_cons.1 h
    unfold assignAxis
    by_cases heq : n = name
    · rw [if_pos heq]
      exact h
    · rw [if_neg heq, List.map_cons, List.nodup_cons, mem_names_assignAxis]
      exact ⟨not_or.2 ⟨heq, hn⟩, ih hrest⟩

private theorem mem_assignAxis {name n : String} {index i : Nat} (h : (table.map Prod.fst).Nodup) :
    (n, i) ∈ assignAxis table name index ↔ n = name ∧ i = index ∨ n ≠ name ∧ (n, i) ∈ table := by
  induction table with
  | nil => simp [assignAxis]
  | cons first rest ih =>
    obtain ⟨m, k⟩ := first
    obtain ⟨hm, hrest⟩ := List.nodup_cons.1 h
    unfold assignAxis
    by_cases heq : m = name
    · subst heq
      -- The name has the first entry, so no other one is its own.
      have hne : (n, i) ∈ rest → n ≠ m := by
        rintro hmem rfl
        exact hm (List.mem_map.2 ⟨_, hmem, rfl⟩)
      grind
    · rw [if_neg heq, List.mem_cons, ih hrest, List.mem_cons]
      grind

theorem tabulates_axisTable (assignments : List (Nat × String)) :
    Tabulates (axisTable assignments) (lastIndex? assignments) := by
  induction assignments using List.reverseRecOn with
  | nil => exact ⟨List.nodup_nil, by simp [axisTable, lastIndex?]⟩
  | append_singleton assignments a ih =>
    rw [axisTable_concat]
    refine ⟨nodup_names_assignAxis ih.nodup_names, fun name index => ?_⟩
    rw [mem_assignAxis ih.nodup_names, ih.mem_iff, lastIndex?_concat]
    by_cases h : a.2 = name
    · simp [h, eq_comm]
    · simp [h, Ne.symm h]

/-! ### Indices that number the names -/

/-- Some index lies outside the `n` axes, or two names share one. -/
def Conflicting (index? : String → Option Nat) (n : Nat) : Prop :=
  (∃ name i, index? name = some i ∧ n ≤ i) ∨
    ∃ name other i, name ≠ other ∧ index? name = some i ∧ index? other = some i

/-- The names that have an index and the `n` axes correspond one to one. -/
structure NamesAxes (index? : String → Option Nat) (n : Nat) : Prop where
  lt : ∀ name i, index? name = some i → i < n
  injective : ∀ name other i, index? name = some i → index? other = some i → name = other
  surjective : ∀ i < n, ∃ name, index? name = some i

theorem namesAxes_iff {n : Nat} :
    NamesAxes index? n ↔ ¬Conflicting index? n ∧ ∀ i < n, ∃ name, index? name = some i := by
  constructor
  · rintro ⟨hlt, hinj, hsurj⟩
    refine ⟨?_, hsurj⟩
    rintro (⟨name, i, hi, hout⟩ | ⟨name, other, i, hne, hi, hother⟩)
    · exact absurd (hlt name i hi) (Nat.not_lt.2 hout)
    · exact hne (hinj name other i hi hother)
  · rintro ⟨hnot, hsurj⟩
    obtain ⟨hin, hshared⟩ := not_or.1 hnot
    refine ⟨fun name i hi => ?_, fun name other i hi hother => ?_, hsurj⟩
    · exact Nat.lt_of_not_le fun hout => hin ⟨name, i, hi, hout⟩
    · by_contra hne
      exact hshared ⟨name, other, i, hne, hi, hother⟩

theorem NamesAxes.not_conflicting {n : Nat} (h : NamesAxes index? n) : ¬Conflicting index? n := (namesAxes_iff.1 h).1

/-! ### Filling the slots -/

section Fill

variable {shape : List Nat} {slots filled : List (Option String)}

/-- What filling the slots from a table comes to when every name finds its slot free. -/
structure Fills (slots : List (Option String)) (table : List (String × Nat)) (filled : List (Option String)) :
    Prop where
  length_eq : filled.length = slots.length
  free : ∀ name index, (name, index) ∈ table → slots[index]? = some none
  getElem?_eq_some_iff : ∀ i name, filled[i]? = some (some name) ↔ slots[i]? = some (some name) ∨ (name, i) ∈ table
  count : (filled.filterMap id).length = (slots.filterMap id).length + table.length

private theorem length_filterMap_set {i : Nat} (h : slots[i]? = some none) (name : String) :
    ((slots.set i (some name)).filterMap id).length = (slots.filterMap id).length + 1 := by
  obtain ⟨hlt, hnone⟩ := List.getElem?_eq_some_iff.1 h
  obtain ⟨before, after, hslots, -, hset⟩ := @List.exists_of_set _ i (some name) slots hlt
  rw [hset, hslots, hnone]
  simp only [List.filterMap_append, List.filterMap_cons, id_eq, List.length_append, List.length_cons]
  omega

private theorem getElem?_set_eq_some_iff {index i : Nat} {name n : String} (h : slots[index]? = some none) :
    (slots.set index (some name))[i]? = some (some n) ↔ slots[i]? = some (some n) ∨ (n, i) = (name, index) := by
  by_cases hi : i = index
  · subst hi
    rw [List.getElem?_set_self (List.getElem?_eq_some_iff.1 h).1, h]
    simp [eq_comm]
  · rw [List.getElem?_set_ne (Ne.symm hi)]
    simp [hi]

private theorem map_some_filterMap {slots : List (Option String)} (h : ∀ slot ∈ slots, (id slot).isSome) :
    (slots.filterMap id).map some = slots := by
  induction slots with
  | nil => rfl
  | cons slot rest ih =>
    obtain ⟨name, hname⟩ := Option.isSome_iff_exists.1 (h slot (List.mem_cons_self ..))
    rw [List.filterMap_cons_some hname, List.map_cons, ih fun s hs => h s (List.mem_cons_of_mem _ hs)]
    exact congrArg (· :: rest) hname.symm

theorem fills_of_fillAxes (h : fillAxes shape slots table = .ok filled) : Fills slots table filled := by
  induction table generalizing slots with
  | nil =>
    obtain rfl := Except.ok.inj h
    exact ⟨rfl, by simp, by simp, rfl⟩
  | cons first rest ih =>
    obtain ⟨name, index⟩ := first
    unfold fillAxes at h
    split at h
    · exact absurd h (by simp)
    · exact absurd h (by simp)
    · rename_i hfree
      have hrest := ih h
      refine ⟨?_, fun n i hmem => ?_, fun i n => ?_, ?_⟩
      · rw [hrest.length_eq, List.length_set]
      · rcases List.mem_cons.1 hmem with heq | hmem
        · obtain ⟨rfl, rfl⟩ := Prod.mk.inj heq
          exact hfree
        · -- The slot of this name is taken by now, so a later name has another one.
          have hlater := hrest.free n i hmem
          by_cases hi : index = i
          · subst hi
            rw [List.getElem?_set_self (List.getElem?_eq_some_iff.1 hfree).1] at hlater
            exact absurd hlater (by simp)
          · rwa [List.getElem?_set_ne hi] at hlater
      · rw [hrest.getElem?_eq_some_iff, getElem?_set_eq_some_iff hfree, List.mem_cons, or_assoc]
      · rw [hrest.count, length_filterMap_set hfree, List.length_cons]
        omega

/-- Filling fails at a name whose index has no slot, or one that another name has. -/
theorem fillAxes_eq_error {e : MeshError} (hnames : (table.map Prod.fst).Nodup)
    (h : fillAxes shape slots table = .error e) :
    ∃ name index, (name, index) ∈ table ∧
      (slots.length ≤ index ∧ e = .axisOutOfRange index shape ∨
        ((∃ other, slots[index]? = some (some other)) ∨ ∃ other, name ≠ other ∧ (other, index) ∈ table) ∧
          e = .axisTaken index) := by
  induction table generalizing slots with
  | nil => exact absurd h (by simp [fillAxes])
  | cons first rest ih =>
    obtain ⟨name, index⟩ := first
    obtain ⟨hname, hrest⟩ := List.nodup_cons.1 hnames
    unfold fillAxes at h
    split at h
    · rename_i hnone
      exact ⟨name, index, List.mem_cons_self .., .inl ⟨List.getElem?_eq_none_iff.1 hnone, (Except.error.inj h).symm⟩⟩
    · rename_i other htaken
      exact ⟨name, index, List.mem_cons_self .., .inr ⟨.inl ⟨other, htaken⟩, (Except.error.inj h).symm⟩⟩
    · rename_i hfree
      obtain ⟨n, i, hmem, hfault⟩ := ih hrest h
      refine ⟨n, i, List.mem_cons_of_mem _ hmem, ?_⟩
      rcases hfault with ⟨hout, he⟩ | ⟨⟨other, htaken⟩ | ⟨other, hne, hother⟩, he⟩
      · exact .inl ⟨List.length_set ▸ hout, he⟩
      · refine .inr ⟨?_, he⟩
        -- The slot was taken before, or it is the one of this name.
        rcases (getElem?_set_eq_some_iff hfree).1 htaken with htaken | heq
        · exact .inl ⟨other, htaken⟩
        · obtain ⟨rfl, rfl⟩ := Prod.mk.inj heq
          refine .inr ⟨other, ?_, List.mem_cons_self ..⟩
          rintro rfl
          exact hname (List.mem_map.2 ⟨_, hmem, rfl⟩)
      · exact .inr ⟨.inr ⟨other, hne, List.mem_cons_of_mem _ hother⟩, he⟩

end Fill

/-! ### Filling the slots of a shape -/

section Free

variable {shape : List Nat} {n : Nat} {filled : List (Option String)} (htable : Tabulates table index?)

include htable

/-- The error names an index outside the shape or one that two names share. -/
theorem conflict_of_fillAxes {e : MeshError} (h : fillAxes shape (List.replicate n none) table = .error e) :
    ∃ name i, index? name = some i ∧
      (n ≤ i ∧ e = .axisOutOfRange i shape ∨ (∃ other, name ≠ other ∧ index? other = some i) ∧ e = .axisTaken i) := by
  obtain ⟨name, i, hmem, hfault⟩ := fillAxes_eq_error htable.nodup_names h
  refine ⟨name, i, (htable.mem_iff name i).1 hmem, ?_⟩
  rcases hfault with ⟨hout, he⟩ | ⟨⟨other, htaken⟩ | ⟨other, hne, hother⟩, he⟩
  · exact .inl ⟨by simpa using hout, he⟩
  · exact absurd htaken (by simp [List.getElem?_replicate])
  · exact .inr ⟨⟨other, hne, (htable.mem_iff other i).1 hother⟩, he⟩

variable (h : fillAxes shape (List.replicate n none) table = .ok filled)

include h

theorem getElem?_of_fillAxes {i : Nat} {name : String} : filled[i]? = some (some name) ↔ index? name = some i := by
  rw [(fills_of_fillAxes h).getElem?_eq_some_iff, htable.mem_iff]
  simp [List.getElem?_replicate]

theorem not_conflicting_of_fillAxes : ¬Conflicting index? n := by
  rintro (⟨name, i, hi, hout⟩ | ⟨name, other, i, hne, hi, hother⟩)
  · have hfree := (fills_of_fillAxes h).free name i ((htable.mem_iff name i).2 hi)
    rw [List.getElem?_eq_none (by simpa using hout)] at hfree
    exact absurd hfree (by simp)
  · -- A slot holds one name.
    have hname := (getElem?_of_fillAxes htable h).2 hi
    rw [(getElem?_of_fillAxes htable h).2 hother] at hname
    exact hne (Option.some.inj (Option.some.inj hname)).symm

omit htable in
theorem length_axes_of_fillAxes : (filled.filterMap id).length = table.length := by
  rw [(fills_of_fillAxes h).count]
  simp

/-- All slots are filled exactly if every axis has a name. -/
theorem length_axes_eq_iff : (filled.filterMap id).length = n ↔ ∀ i < n, ∃ name, index? name = some i := by
  have hlen : filled.length = n := (fills_of_fillAxes h).length_eq.trans List.length_replicate
  rw [← hlen, List.filterMap_length_eq_length]
  constructor
  · intro hall i hi
    obtain ⟨name, hname⟩ := Option.isSome_iff_exists.1 (hall filled[i] (List.getElem_mem hi))
    refine ⟨name, (getElem?_of_fillAxes htable h).1 ?_⟩
    rw [List.getElem?_eq_getElem hi]
    exact congrArg some hname
  · intro hnamed slot hslot
    obtain ⟨i, hi, rfl⟩ := List.mem_iff_getElem.1 hslot
    obtain ⟨name, hname⟩ := hnamed i hi
    have hfilled := (getElem?_of_fillAxes htable h).2 hname
    rw [List.getElem?_eq_getElem hi] at hfilled
    rw [Option.some.inj hfilled]
    rfl

/-- The name of an axis is the one that has its index. -/
theorem getElem?_axes_of_fillAxes (hall : (filled.filterMap id).length = n) {i : Nat} {name : String} :
    (filled.filterMap id)[i]? = some name ↔ index? name = some i := by
  have hlen : filled.length = n := (fills_of_fillAxes h).length_eq.trans List.length_replicate
  have hfilled : (filled.filterMap id).map some = filled :=
    map_some_filterMap (List.filterMap_length_eq_length.1 (hall.trans hlen.symm))
  rw [← getElem?_of_fillAxes htable h]
  conv => rhs; rw [← hfilled]
  simp

end Free

end CrossMesh
