import CrossMesh.Proofs.Mesh.Repeats
import CrossMesh.Proofs.Transfer.Roles

/-!
# Where a clash comes from

The scan of some pairs stops at the first pair that names a rank of an earlier one, and at the first rank of this pair
rather than at the second one (`clash?_eq_some_iff`, and by positions `clash?_first`).  No mesh names a rank twice, so a
rank that clashes among the pairs of two meshes stands in both of them, and not at the same position
(`exists_positions_of_clash?`).  Meshes of one size have a pair for every position, so that such a rank always clashes
(`clash?_pairsWith_eq_none_iff`).
-/

namespace CrossMesh

theorem concerns_some_iff {r : Rank} {a : Rank × Rank} : Concerns (some r) a ↔ r = a.1 ∨ r = a.2 := by
  simp [Concerns]

/-! ### The pair at which the scan stops -/

/-- Some pair names the rank. -/
def Named (pairs : List (Rank × Rank)) (r : Rank) : Prop := ∃ a ∈ pairs, Concerns (some r) a

/-- The scan has met the rank: it was seen before the scan started, or a pair in front of the present one names it. -/
def Met (seen : List Rank) (before : List (Rank × Rank)) (r : Rank) : Prop := r ∈ seen ∨ Named before r

theorem met_nil_left {before : List (Rank × Rank)} {r : Rank} : Met [] before r ↔ Named before r := by
  simp [Met]

theorem met_nil_right {seen : List Rank} {r : Rank} : Met seen [] r ↔ r ∈ seen := by
  simp [Met, Named]

/-- The ranks of the first pair count as seen when the scan is behind it. -/
theorem met_cons {seen seen' : List Rank} {first : Rank × Rank} {before : List (Rank × Rank)} {r : Rank}
    (hseen : ∀ x, x ∈ seen' ↔ x ∈ seen ∨ x = first.1 ∨ x = first.2) :
    Met seen (first :: before) r ↔ Met seen' before r := by
  unfold Met Named
  rw [List.exists_mem_cons_iff, concerns_some_iff, hseen, or_assoc, or_assoc, or_assoc]

/-- The pair `a` stops the scan at `r`: at its first rank if the scan has met it, otherwise at its second one. -/
def StopsAt (seen : List Rank) (before : List (Rank × Rank)) (a : Rank × Rank) (r : Rank) : Prop :=
  Met seen before a.1 ∧ r = a.1 ∨ ¬Met seen before a.1 ∧ Met seen before a.2 ∧ r = a.2

/-- The scan stops at the first pair that names a rank it has met. -/
theorem clashFrom_eq_some_iff {seen : List Rank} {pairs : List (Rank × Rank)} {r : Rank} :
    clashFrom seen pairs = some r ↔ ∃ a before after, pairs = before ++ a :: after ∧
      clashFrom seen before = none ∧ StopsAt seen before a r := by
  induction pairs generalizing seen with
  | nil => simp [clashFrom]
  | cons first rest ih =>
    simp only [exists_split_cons, exists_or, exists_eq_left']
    by_cases hmet : first.1 ∈ seen ∨ first.2 ∈ seen
    · simp only [clashFrom_of_seen hmet, StopsAt, met_nil_right]
      by_cases hsrc : first.1 ∈ seen <;> simp_all [eq_comm, clashFrom]
    · obtain ⟨hsrc, hdst⟩ := not_or.1 hmet
      obtain ⟨seen', hseen, hstep⟩ := exists_clashFrom_cons hsrc hdst
      -- The first pair does not stop the scan, and behind it the scan is that of the rest.
      simp only [hstep, ih, StopsAt, met_cons hseen, met_nil_right, hsrc, hdst]
      simp

theorem clash?_eq_some_iff {pairs : List (Rank × Rank)} {r : Rank} :
    clash? pairs = some r ↔ ∃ a before after, pairs = before ++ a :: after ∧ clash? before = none ∧
      (Named before a.1 ∧ r = a.1 ∨ ¬Named before a.1 ∧ Named before a.2 ∧ r = a.2) := by
  unfold clash?
  rw [clashFrom_eq_some_iff]
  simp only [StopsAt, met_nil_left]

theorem exists_split_of_clash? {pairs : List (Rank × Rank)} {r : Rank} (h : clash? pairs = some r) :
    ∃ before a after, pairs = before ++ a :: after ∧ Concerns (some r) a ∧ ∃ b ∈ before, Concerns (some r) b := by
  obtain ⟨a, before, after, heq, -, ⟨hnamed, rfl⟩ | ⟨-, hnamed, rfl⟩⟩ := clash?_eq_some_iff.1 h
  · exact ⟨before, a, after, heq, concerns_some_iff.2 (.inl rfl), hnamed⟩
  · exact ⟨before, a, after, heq, concerns_some_iff.2 (.inr rfl), hnamed⟩

/-! ### The position of the pair -/

/-- The pair at position `j` names a rank that an earlier pair names. -/
def ClashesAt (pairs : List (Rank × Rank)) (j : Nat) : Prop :=
  ∃ a, pairs[j]? = some a ∧ (Named (pairs.take j) a.1 ∨ Named (pairs.take j) a.2)

theorem named_take_iff {pairs : List (Rank × Rank)} {j : Nat} {r : Rank} :
    Named (pairs.take j) r ↔ ∃ (i : Nat) (a : Rank × Rank), i < j ∧ pairs[i]? = some a ∧ Concerns (some r) a := by
  unfold Named
  constructor
  · rintro ⟨a, ha, hname⟩
    obtain ⟨i, hi⟩ := List.mem_iff_getElem?.1 ha
    rw [List.getElem?_take] at hi
    split at hi
    · exact ⟨i, a, ‹_›, hi, hname⟩
    · exact absurd hi (by simp)
  · rintro ⟨i, a, hij, hi, hname⟩
    refine ⟨a, List.mem_iff_getElem?.2 ⟨i, ?_⟩, hname⟩
    rw [List.getElem?_take, if_pos hij, hi]

theorem apart_iff {a b : Rank × Rank} : Apart a b ↔ ∀ r, ¬(Concerns (some r) a ∧ Concerns (some r) b) := by
  simp only [concerns_some_iff]
  constructor
  · rintro ⟨h₁₁, h₁₂, h₂₁, h₂₂⟩ r ⟨rfl | rfl, hb⟩
    · exact hb.elim h₁₁ h₁₂
    · exact hb.elim h₂₁ h₂₂
  · intro h
    exact ⟨fun heq => h a.1 ⟨.inl rfl, .inl heq⟩, fun heq => h a.1 ⟨.inl rfl, .inr heq⟩,
      fun heq => h a.2 ⟨.inr rfl, .inl heq⟩, fun heq => h a.2 ⟨.inr rfl, .inr heq⟩⟩

/-- The scan finds no clash exactly when no two pairs at different positions name one rank. -/
theorem clash?_eq_none_iff_positions {pairs : List (Rank × Rank)} :
    clash? pairs = none ↔ ∀ (r : Rank) (i j : Nat) (a b : Rank × Rank), pairs[i]? = some a → pairs[j]? = some b →
      Concerns (some r) a → Concerns (some r) b → i = j := by
  rw [clash?_eq_none_iff, List.pairwise_iff_getElem]
  constructor
  · intro hapart r i j a b hi hj ha hb
    obtain ⟨hilt, rfl⟩ := List.getElem?_eq_some_iff.1 hi
    obtain ⟨hjlt, rfl⟩ := List.getElem?_eq_some_iff.1 hj
    by_contra hne
    rcases Nat.lt_or_gt_of_ne hne with hlt | hlt
    · exact apart_iff.1 (hapart i j hilt hjlt hlt) r ⟨ha, hb⟩
    · exact apart_iff.1 (hapart j i hjlt hilt hlt) r ⟨hb, ha⟩
  · intro hpositions i j hi hj hlt
    refine apart_iff.2 fun r ⟨ha, hb⟩ => ?_
    have heq := hpositions r i j pairs[i] pairs[j] (List.getElem?_eq_getElem hi) (List.getElem?_eq_getElem hj) ha hb
    omega

theorem clash?_eq_none_iff_forall {pairs : List (Rank × Rank)} : clash? pairs = none ↔ ∀ j, ¬ClashesAt pairs j := by
  constructor
  · rintro hnone j ⟨b, hj, hnamed⟩
    have earlier : ∀ r, Concerns (some r) b → ¬Named (pairs.take j) r := by
      intro r hb hr
      obtain ⟨i, a, hlt, hi, ha⟩ := named_take_iff.1 hr
      have heq := clash?_eq_none_iff_positions.1 hnone r i j a b hi hj ha hb
      omega
    rcases hnamed with hsrc | hdst
    · exact earlier b.1 (concerns_some_iff.2 (.inl rfl)) hsrc
    · exact earlier b.2 (concerns_some_iff.2 (.inr rfl)) hdst
  · intro hnone
    rw [Option.eq_none_iff_forall_ne_some]
    intro r hclash
    obtain ⟨a, before, after, rfl, -, hnamed⟩ := clash?_eq_some_iff.1 hclash
    refine hnone before.length ⟨a, by simp, ?_⟩
    rw [List.take_left]
    rcases hnamed with ⟨hsrc, -⟩ | ⟨-, hdst, -⟩
    · exact .inl hsrc
    · exact .inr hdst

/-- Leaving out later pairs does not change which of the others clash. -/
theorem clashesAt_take_iff {pairs : List (Rank × Rank)} {i j : Nat} :
    ClashesAt (pairs.take j) i ↔ i < j ∧ ClashesAt pairs i := by
  unfold ClashesAt
  rw [List.getElem?_take, List.take_take]
  by_cases hlt : i < j
  · rw [if_pos hlt, Nat.min_eq_left (Nat.le_of_lt hlt), and_iff_right hlt]
  · simp [hlt]

/-- The scan finds no clash exactly if no rank is named by pairs at two positions.  Otherwise it stops at the first pair
that names a rank of an earlier pair, and finds the first rank of this pair if an earlier pair names it and the second
one if not. -/
theorem clash?_first (pairs : List (Rank × Rank)) :
    (clash? pairs = none ↔ ∀ (r : Rank) (i j : Nat) (a b : Rank × Rank), pairs[i]? = some a → pairs[j]? = some b →
      Concerns (some r) a → Concerns (some r) b → i = j) ∧
    ∀ r, clash? pairs = some r ↔ ∃ (j : Nat) (a : Rank × Rank), pairs[j]? = some a ∧ (∀ i < j, ¬ClashesAt pairs i) ∧
      (Named (pairs.take j) a.1 ∧ r = a.1 ∨ ¬Named (pairs.take j) a.1 ∧ Named (pairs.take j) a.2 ∧ r = a.2) := by
  refine ⟨clash?_eq_none_iff_positions, fun r => ?_⟩
  have hbefore : ∀ j, clash? (pairs.take j) = none ↔ ∀ i < j, ¬ClashesAt pairs i := by
    intro j
    rw [clash?_eq_none_iff_forall]
    simp only [clashesAt_take_iff, not_and]
  rw [clash?_eq_some_iff]
  constructor
  · rintro ⟨a, before, after, rfl, hnone, hstop⟩
    refine ⟨before.length, a, by simp, (hbefore before.length).1 ?_, ?_⟩
    · rwa [List.take_left]
    · rwa [List.take_left]
  · rintro ⟨j, a, hj, hnone, hstop⟩
    obtain ⟨hlt, rfl⟩ := List.getElem?_eq_some_iff.1 hj
    exact ⟨pairs[j], pairs.take j, pairs.drop (j + 1), by simp, (hbefore j).2 hnone, hstop⟩

-- Earlier pairs name both ranks of the third pair.
example : clash? [(0, 1), (2, 2), (2, 1)] = some 2 := by decide

/-! ### Clashes between meshes -/

namespace Mesh

theorem eq_of_getElem?_ids {mesh : Mesh} {r : Rank} {i j : Nat} (hi : mesh.ids[i]? = some r)
    (hj : mesh.ids[j]? = some r) : i = j :=
  (List.getElem?_inj (List.getElem?_eq_some_iff.1 hi).1 mesh.nodup_ids).1 (hi.trans hj.symm)

/-- A rank in two pairs of two meshes stands in both meshes, at different positions. -/
theorem exists_positions_of_clash? {src dst : Mesh} {r : Rank} (h : clash? (src.pairsWith dst) = some r) :
    ∃ i j : Nat, i ≠ j ∧ src.ids[i]? = some r ∧ dst.ids[j]? = some r := by
  obtain ⟨before, a, after, heq, ha, b, hb, hname⟩ := exists_split_of_clash? h
  obtain ⟨k, hk, rfl⟩ := List.mem_iff_getElem.1 hb
  have hlater : (src.pairsWith dst)[before.length]? = some a := by
    rw [heq, List.getElem?_append_right (Nat.le_refl _), Nat.sub_self]
    rfl
  have hearlier : (src.pairsWith dst)[k]? = some before[k] := by
    rw [heq, List.getElem?_append_left hk, List.getElem?_eq_getElem hk]
  have hne : k ≠ before.length := Nat.ne_of_lt hk
  obtain ⟨hsrc, hdst⟩ := List.getElem?_zip_eq_some.1 hlater
  obtain ⟨hsrc', hdst'⟩ := List.getElem?_zip_eq_some.1 hearlier
  -- Were both pairs to name it on the same side, one mesh would name it twice.
  rcases concerns_some_iff.1 ha with ha | ha <;> rcases concerns_some_iff.1 hname with hname | hname
  · exact absurd (eq_of_getElem?_ids (hname ▸ hsrc') (ha ▸ hsrc)) hne
  · exact ⟨before.length, k, Ne.symm hne, ha ▸ hsrc, hname ▸ hdst'⟩
  · exact ⟨k, before.length, hne, hname ▸ hsrc', ha ▸ hdst⟩
  · exact absurd (eq_of_getElem?_ids (hname ▸ hdst') (ha ▸ hdst)) hne

theorem getElem?_pairsWith {src dst : Mesh} {i : Nat} {a b : Rank} :
    (src.pairsWith dst)[i]? = some (a, b) ↔ src.ids[i]? = some a ∧ dst.ids[i]? = some b :=
  List.getElem?_zip_eq_some

/-- The pairs of two meshes of one size clash unless the ranks they share stand at the same positions. -/
theorem clash?_pairsWith_eq_none_iff {src dst : Mesh} (hlen : src.ids.length = dst.ids.length) :
    clash? (src.pairsWith dst) = none ↔
      ∀ (r : Rank) (i j : Nat), src.ids[i]? = some r → dst.ids[j]? = some r → i = j := by
  constructor
  · intro hnone r i j hi hj
    by_contra hne
    have hilt := (List.getElem?_eq_some_iff.1 hi).1
    have hjlt := (List.getElem?_eq_some_iff.1 hj).1
    -- The rank sends in the pair at the one position and receives in that at the other.
    have hsends : (src.pairsWith dst)[i]? = some (r, dst.ids[i]) :=
      getElem?_pairsWith.2 ⟨hi, List.getElem?_eq_getElem (hlen ▸ hilt)⟩
    have hreceives : (src.pairsWith dst)[j]? = some (src.ids[j], r) :=
      getElem?_pairsWith.2 ⟨List.getElem?_eq_getElem (hlen ▸ hjlt), hj⟩
    exact hne (clash?_eq_none_iff_positions.1 hnone r i j _ _ hsends hreceives (concerns_some_iff.2 (.inl rfl))
      (concerns_some_iff.2 (.inr rfl)))
  · intro hpositions
    rw [Option.eq_none_iff_forall_ne_some]
    intro r hclash
    obtain ⟨i, j, hne, hi, hj⟩ := exists_positions_of_clash? hclash
    exact hne (hpositions r i j hi hj)

end Mesh

end CrossMesh
