import CrossMesh.Mesh
import Mathlib.Data.List.Nodup

/-!
# Repeated ranks

The scan of some ranks stops at the first one that stands behind an equal one (`firstRepeat?_eq_some_iff`), so there is
at most one such rank.
-/

namespace CrossMesh

/-- A list splits at an element if this is the first one or the rest splits at it. -/
theorem exists_split_cons {α : Type} {first a : α} {rest : List α} {P : List α → Prop} :
    (∃ before after, first :: rest = before ++ a :: after ∧ P before) ↔
      first = a ∧ P [] ∨ ∃ before after, rest = before ++ a :: after ∧ P (first :: before) := by
  constructor
  · rintro ⟨before, after, heq, hP⟩
    rcases List.cons_eq_append_iff.1 heq with ⟨rfl, hrest⟩ | ⟨before, rfl, rfl⟩
    · exact .inl ⟨(List.cons.inj hrest).1.symm, hP⟩
    · exact .inr ⟨before, after, rfl, hP⟩
  · rintro (⟨rfl, hP⟩ | ⟨before, after, rfl, hP⟩)
    · exact ⟨[], rest, rfl, hP⟩
    · exact ⟨first :: before, after, rfl, hP⟩

/-- The rank stands behind an equal one, and no rank in front of it does. -/
def FirstRepeat (ranks : List Rank) (r : Rank) : Prop :=
  ∃ before after, ranks = before ++ r :: after ∧ r ∈ before ∧ before.Nodup

variable {ranks : List Rank} {r : Rank}

theorem FirstRepeat.not_nodup (h : FirstRepeat ranks r) : ¬ranks.Nodup := by
  obtain ⟨before, after, rfl, hmem, -⟩ := h
  intro hnodup
  exact (List.nodup_append.1 hnodup).2.2 r hmem r (List.mem_cons_self ..) rfl

private theorem firstRepeatFrom_eq_some_iff {seen : List Rank} : firstRepeatFrom seen ranks = some r ↔
    ∃ before after, ranks = before ++ r :: after ∧
      (r ∈ seen ∨ r ∈ before) ∧ before.Nodup ∧ ∀ x ∈ before, x ∉ seen := by
  induction ranks generalizing seen with
  | nil => simp [firstRepeatFrom]
  | cons a rest ih =>
    unfold firstRepeatFrom
    rw [exists_split_cons (P := fun before => (r ∈ seen ∨ r ∈ before) ∧ before.Nodup ∧ ∀ x ∈ before, x ∉ seen)]
    by_cases ha : a ∈ seen
    · rw [if_pos ha]
      grind
    · rw [if_neg ha, ih]
      -- Behind `a`, which counts as seen, nothing in front of the repeated rank is equal to it.
      have hbefore : ∀ before : List Rank,
          ((r ∈ a :: seen ∨ r ∈ before) ∧ before.Nodup ∧ ∀ x ∈ before, x ∉ a :: seen) ↔
            ((r ∈ seen ∨ r ∈ a :: before) ∧ (a :: before).Nodup ∧ ∀ x ∈ a :: before, x ∉ seen) := by
        intro before
        grind
      simp only [hbefore]
      grind

theorem firstRepeat?_eq_some_iff : firstRepeat? ranks = some r ↔ FirstRepeat ranks r := by
  unfold firstRepeat? FirstRepeat
  rw [firstRepeatFrom_eq_some_iff]
  simp

theorem FirstRepeat.unique {r' : Rank} (h : FirstRepeat ranks r) (h' : FirstRepeat ranks r') : r = r' :=
  Option.some.inj ((firstRepeat?_eq_some_iff.2 h).symm.trans (firstRepeat?_eq_some_iff.2 h'))

end CrossMesh
