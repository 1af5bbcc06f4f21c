import CrossMesh.Proofs.Json.Grammar
import Mathlib.Data.List.DropRight

/-!
# Blanks, words and brackets

What the readers of marks and words take from a text.  Each is told by an equivalence: the reader answers with `r`
exactly if the text is what it looks for, in front of `r`.
-/

namespace CrossMesh

namespace Json

variable {s r : List Char} {c : Char}

/-! ### Blanks -/

theorem isBlank_iff : isBlank c = true ↔ c ∈ [' ', '\t', '\n', '\r'] := by
  simp [isBlank, or_assoc]

theorem blanks_nil : Blanks [] := fun _ h => absurd h List.not_mem_nil

theorem Blanks.append {a b : List Char} (ha : Blanks a) (hb : Blanks b) : Blanks (a ++ b) :=
  List.forall_mem_append.2 ⟨ha, hb⟩

theorem exists_blanks (s : List Char) : ∃ a, Blanks a ∧ s = a ++ dropBlanks s :=
  ⟨s.takeWhile isBlank, fun _ hc => isBlank_iff.1 (List.mem_takeWhile_imp hc), List.takeWhile_append_dropWhile.symm⟩

theorem dropBlanks_cons (hc : ¬isBlank c) : dropBlanks (c :: r) = c :: r :=
  List.dropWhile_cons_of_neg hc

theorem dropBlanks_append {a : List Char} (ha : Blanks a) : dropBlanks (a ++ s) = dropBlanks s :=
  List.dropWhile_append_of_pos fun c hc => isBlank_iff.2 (ha c hc)

/-- Blanks are dropped up to a character that is none. -/
theorem dropBlanks_append_cons {a : List Char} (ha : Blanks a) (hc : ¬isBlank c) :
    dropBlanks (a ++ c :: r) = c :: r := by
  rw [dropBlanks_append ha, dropBlanks_cons hc]

@[simp]
theorem dropBlanks_dropBlanks (s : List Char) : dropBlanks (dropBlanks s) = dropBlanks s :=
  List.dropWhile_idempotent ..

theorem exists_of_dropBlanks_eq (h : dropBlanks s = r) : ∃ a, Blanks a ∧ s = a ++ r :=
  h ▸ exists_blanks s

theorem dropBlanks_eq_cons_iff (hc : ¬isBlank c) :
    dropBlanks s = c :: r ↔ ∃ a, Blanks a ∧ s = a ++ c :: r := by
  refine ⟨exists_of_dropBlanks_eq, ?_⟩
  rintro ⟨a, ha, rfl⟩
  exact dropBlanks_append_cons ha hc

theorem dropBlanks_eq_nil_iff : dropBlanks s = [] ↔ Blanks s := by
  rw [dropBlanks, List.dropWhile_eq_nil_iff]
  exact forall₂_congr fun _ _ => isBlank_iff

/-! ### Words -/

theorem readWord_eq_ok_iff {word : List Char} : readWord word s = .ok r ↔ s = word ++ r := by
  refine ⟨eq_append_of_readWord, ?_⟩
  rintro rfl
  induction word with
  | nil => rfl
  | cons c word ih => simp [readWord, ih]

/-- A word behind blanks. -/
theorem readWord_dropBlanks_eq_ok_iff {word : List Char} (hc : ¬isBlank c) :
    readWord (c :: word) (dropBlanks s) = .ok r ↔ ∃ a, Blanks a ∧ s = a ++ c :: (word ++ r) := by
  rw [readWord_eq_ok_iff, List.cons_append, dropBlanks_eq_cons_iff hc]

theorem readColon_eq_ok_iff : readColon s = .ok r ↔ ∃ a, Blanks a ∧ s = a ++ ':' :: r :=
  readWord_dropBlanks_eq_ok_iff (by decide)

theorem readComma_eq_ok_iff : readComma s = .ok r ↔ ∃ a, Blanks a ∧ s = a ++ ',' :: r :=
  readWord_dropBlanks_eq_ok_iff (by decide)

/-! ### Brackets -/

theorem Bracket.not_isBlank_closer (b : Bracket) : ¬isBlank b.closer := by
  cases b <;> decide

theorem opening?_eq_some_iff {b : Bracket} : opening? s = some (b, r) ↔ s = b.opener :: r := by
  constructor
  · intro h
    unfold opening? at h
    split at h
    · obtain ⟨rfl, rfl⟩ := Prod.mk.inj (Option.some.inj h)
      rfl
    · obtain ⟨rfl, rfl⟩ := Prod.mk.inj (Option.some.inj h)
      rfl
    · exact absurd h (by simp)
  · rintro rfl
    cases b <;> rfl

theorem closing?_eq_some_iff {b : Bracket} : closing? b s = some r ↔ ∃ a, Blanks a ∧ s = a ++ b.closer :: r := by
  rw [← dropBlanks_eq_cons_iff b.not_isBlank_closer]
  unfold closing?
  split
  · rename_i c t ht
    rw [ht, List.cons.injEq]
    split
    · rename_i hc
      simp [hc]
    · rename_i hc
      simp [hc]
  · rename_i ht
    simp [ht]

theorem closing?_append_cons {b : Bracket} {a : List Char} (ha : Blanks a) (hc : ¬isBlank c) (hb : c ≠ b.closer) :
    closing? b (a ++ c :: r) = none := by
  simp [closing?, dropBlanks_append_cons ha hc, hb]

end Json

end CrossMesh
