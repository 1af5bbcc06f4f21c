import CrossMesh.Transfer
import Mathlib.Data.List.Pairwise
import Mathlib.Tactic.Tauto

/-!
# Roles and pairs

When no rank stands in two pairs, the first pair that names a rank is the only one, so that the role of a rank says
which pair it stands in (`roleOf_eq_sender_iff`, …).  Two ranks that find their roles each on their own therefore
agree: one sends to the other exactly when the other receives from it (`sender_iff_receiver`), and no rank has two
partners (`roles_partition`).
-/

namespace CrossMesh

/-! ### Pairs without a common rank -/

/-- Two pairs that name no common rank. -/
def Apart (a b : Rank × Rank) : Prop := a.1 ≠ b.1 ∧ a.1 ≠ b.2 ∧ a.2 ≠ b.1 ∧ a.2 ≠ b.2

theorem Apart.symm {a b : Rank × Rank} (h : Apart a b) : Apart b a :=
  ⟨Ne.symm h.1, Ne.symm h.2.2.1, Ne.symm h.2.1, Ne.symm h.2.2.2⟩

instance : Std.Symm Apart := ⟨fun _ _ => Apart.symm⟩

/-! ### One step of the scan -/

/-- The scan stops at a pair of which a rank was seen. -/
theorem clashFrom_of_seen {seen : List Rank} {first : Rank × Rank} (h : first.1 ∈ seen ∨ first.2 ∈ seen)
    (rest : List (Rank × Rank)) :
    clashFrom seen (first :: rest) = some (if first.1 ∈ seen then first.1 else first.2) := by
  obtain ⟨src, dst⟩ := first
  unfold clashFrom
  by_cases hsrc : src ∈ seen
  · simp [hsrc]
  · have hdst : dst ∈ seen := h.resolve_left hsrc
    have hne : src ≠ dst := fun heq => hsrc (heq ▸ hdst)
    simp [hsrc, hne, hdst]

/-- The scan goes on behind a pair of which no rank was seen, and has seen both of its ranks then. -/
theorem exists_clashFrom_cons {seen : List Rank} {first : Rank × Rank} (hsrc : first.1 ∉ seen)
    (hdst : first.2 ∉ seen) :
    ∃ seen', (∀ r, r ∈ seen' ↔ r ∈ seen ∨ r = first.1 ∨ r = first.2) ∧
      ∀ rest, clashFrom seen (first :: rest) = clashFrom seen' rest := by
  obtain ⟨src, dst⟩ := first
  by_cases heq : src = dst
  · refine ⟨src :: seen, fun r => ?_, fun rest => ?_⟩
    · simp [heq, or_comm]
    · simp_all [clashFrom]
  · refine ⟨dst :: src :: seen, fun r => ?_, fun rest => ?_⟩
    · simp only [List.mem_cons]
      tauto
    · simp_all [clashFrom]

/-! ### The scan -/

/-- The scan finds no clash exactly when the pairs name no rank of `seen` and no rank twice. -/
theorem clashFrom_eq_none_iff {seen : List Rank} {pairs : List (Rank × Rank)} :
    clashFrom seen pairs = none ↔ (∀ a ∈ pairs, a.1 ∉ seen ∧ a.2 ∉ seen) ∧ pairs.Pairwise Apart := by
  induction pairs generalizing seen with
  | nil => simp [clashFrom]
  | cons first rest ih =>
    rw [List.pairwise_cons, List.forall_mem_cons]
    by_cases hmet : first.1 ∈ seen ∨ first.2 ∈ seen
    · rw [clashFrom_of_seen hmet]
      simp only [reduceCtorEq, false_iff]
      tauto
    · obtain ⟨hsrc, hdst⟩ := not_or.1 hmet
      obtain ⟨seen', hseen, hstep⟩ := exists_clashFrom_cons hsrc hdst
      -- The ranks of the first pair are among those seen by the rest, so being apart from it becomes part of the claim.
      have hrest : (∀ a ∈ rest, a.1 ∉ seen' ∧ a.2 ∉ seen') ↔
          (∀ a ∈ rest, a.1 ∉ seen ∧ a.2 ∉ seen) ∧ ∀ a ∈ rest, Apart first a := by
        rw [← forall₂_and]
        refine forall₂_congr fun a _ => ?_
        rw [hseen, hseen]
        unfold Apart
        grind
      rw [hstep, ih, hrest]
      tauto

theorem clash?_eq_none_iff {pairs : List (Rank × Rank)} : clash? pairs = none ↔ pairs.Pairwise Apart := by
  unfold clash?
  rw [clashFrom_eq_none_iff]
  simp

/-! ### The role a pair gives -/

theorem pairRole?_eq_none_iff {rank : Rank} {a : Rank × Rank} :
    pairRole? rank a = none ↔ a.1 ≠ rank ∧ a.2 ≠ rank := by
  unfold pairRole?
  by_cases h₁ : a.1 = rank <;> by_cases h₂ : a.2 = rank <;> simp [h₁, h₂]

theorem pairRole?_eq_sender_iff {rank peer : Rank} {a : Rank × Rank} :
    pairRole? rank a = some (.sender peer) ↔ a = (rank, peer) ∧ peer ≠ rank := by
  obtain ⟨src, dst⟩ := a
  by_cases h₁ : src = rank <;> by_cases h₂ : dst = rank <;> grind [pairRole?]

theorem pairRole?_eq_receiver_iff {rank peer : Rank} {a : Rank × Rank} :
    pairRole? rank a = some (.receiver peer) ↔ a = (peer, rank) ∧ peer ≠ rank := by
  obtain ⟨src, dst⟩ := a
  by_cases h₁ : src = rank <;> by_cases h₂ : dst = rank <;> grind [pairRole?]

theorem pairRole?_eq_stationary_iff {rank : Rank} {a : Rank × Rank} :
    pairRole? rank a = some .stationary ↔ a = (rank, rank) := by
  obtain ⟨src, dst⟩ := a
  by_cases h₁ : src = rank <;> by_cases h₂ : dst = rank <;> grind [pairRole?]

theorem pairRole?_ne_bystander (rank : Rank) (a : Rank × Rank) : pairRole? rank a ≠ some .bystander := by
  unfold pairRole?
  split
  · split <;> simp
  · split <;> simp

/-- Pairs that give one rank a role are not apart. -/
private theorem not_apart_of_pairRole? {rank : Rank} {a b : Rank × Rank} {role role' : Role}
    (ha : pairRole? rank a = some role) (hb : pairRole? rank b = some role') : ¬Apart a b := by
  have names : ∀ {c : Rank × Rank} {role : Role}, pairRole? rank c = some role → c.1 = rank ∨ c.2 = rank := by
    intro c role hc
    by_contra hn
    rw [not_or] at hn
    rw [pairRole?_eq_none_iff.2 hn] at hc
    exact absurd hc (by simp)
  rintro ⟨h₁₁, h₁₂, h₂₁, h₂₂⟩
  rcases names ha with ha | ha <;> rcases names hb with hb | hb
  · exact h₁₁ (ha.trans hb.symm)
  · exact h₁₂ (ha.trans hb.symm)
  · exact h₂₁ (ha.trans hb.symm)
  · exact h₂₂ (ha.trans hb.symm)

/-! ### The role of a rank -/

theorem roleOf_eq_bystander_iff {pairs : List (Rank × Rank)} {rank : Rank} :
    roleOf pairs rank = .bystander ↔ ∀ a ∈ pairs, a.1 ≠ rank ∧ a.2 ≠ rank := by
  unfold roleOf
  cases h : pairs.findSome? (pairRole? rank) with
  | none =>
    rw [List.findSome?_eq_none_iff] at h
    exact ⟨fun _ a ha => pairRole?_eq_none_iff.1 (h a ha), fun _ => rfl⟩
  | some role =>
    obtain ⟨a, ha, hrole⟩ := List.exists_of_findSome?_eq_some h
    constructor
    · rintro rfl
      exact absurd hrole (pairRole?_ne_bystander rank a)
    · intro hall
      rw [pairRole?_eq_none_iff.2 (hall a ha)] at hrole
      exact absurd hrole (by simp)

/-- A role other than that of a bystander comes from a pair. -/
theorem exists_pair_of_roleOf {pairs : List (Rank × Rank)} {rank : Rank} (h : roleOf pairs rank ≠ .bystander) :
    ∃ a ∈ pairs, pairRole? rank a = some (roleOf pairs rank) := by
  unfold roleOf at h ⊢
  cases hs : pairs.findSome? (pairRole? rank) with
  | none => exact absurd (by rw [hs]; rfl) h
  | some role => exact List.exists_of_findSome?_eq_some hs

theorem mem_of_roleOf_eq_sender {pairs : List (Rank × Rank)} {rank peer : Rank}
    (h : roleOf pairs rank = .sender peer) : (rank, peer) ∈ pairs ∧ peer ≠ rank := by
  have hnot : roleOf pairs rank ≠ .bystander := by simp [h]
  obtain ⟨a, ha, hrole⟩ := exists_pair_of_roleOf hnot
  rw [h] at hrole
  obtain ⟨rfl, hne⟩ := pairRole?_eq_sender_iff.1 hrole
  exact ⟨ha, hne⟩

theorem mem_of_roleOf_eq_receiver {pairs : List (Rank × Rank)} {rank peer : Rank}
    (h : roleOf pairs rank = .receiver peer) : (peer, rank) ∈ pairs ∧ peer ≠ rank := by
  have hnot : roleOf pairs rank ≠ .bystander := by simp [h]
  obtain ⟨a, ha, hrole⟩ := exists_pair_of_roleOf hnot
  rw [h] at hrole
  obtain ⟨rfl, hne⟩ := pairRole?_eq_receiver_iff.1 hrole
  exact ⟨ha, hne⟩

section Apart

variable {pairs : List (Rank × Rank)} (hpairs : pairs.Pairwise Apart)

include hpairs

/-- The pair that gives a rank a role is the only one to give it any. -/
theorem roleOf_eq_of_mem {a : Rank × Rank} (ha : a ∈ pairs) {rank : Rank} {role : Role}
    (hrole : pairRole? rank a = some role) : roleOf pairs rank = role := by
  have hnot : roleOf pairs rank ≠ .bystander := by
    intro hby
    rw [pairRole?_eq_none_iff.2 (roleOf_eq_bystander_iff.1 hby a ha)] at hrole
    exact absurd hrole (by simp)
  obtain ⟨b, hb, hrole'⟩ := exists_pair_of_roleOf hnot
  have hab : a = b := by
    by_contra hne
    exact not_apart_of_pairRole? hrole hrole' (hpairs.forall ha hb hne)
  subst hab
  exact Option.some.inj (hrole'.symm.trans hrole)

theorem roleOf_eq_sender_iff {rank peer : Rank} :
    roleOf pairs rank = .sender peer ↔ (rank, peer) ∈ pairs ∧ peer ≠ rank := by
  refine ⟨mem_of_roleOf_eq_sender, ?_⟩
  rintro ⟨ha, hne⟩
  exact roleOf_eq_of_mem hpairs ha (pairRole?_eq_sender_iff.2 ⟨rfl, hne⟩)

theorem roleOf_eq_receiver_iff {rank peer : Rank} :
    roleOf pairs rank = .receiver peer ↔ (peer, rank) ∈ pairs ∧ peer ≠ rank := by
  refine ⟨mem_of_roleOf_eq_receiver, ?_⟩
  rintro ⟨ha, hne⟩
  exact roleOf_eq_of_mem hpairs ha (pairRole?_eq_receiver_iff.2 ⟨rfl, hne⟩)

theorem roleOf_eq_stationary_iff {rank : Rank} : roleOf pairs rank = .stationary ↔ (rank, rank) ∈ pairs := by
  constructor
  · intro h
    have hnot : roleOf pairs rank ≠ .bystander := by simp [h]
    obtain ⟨a, ha, hrole⟩ := exists_pair_of_roleOf hnot
    rw [h] at hrole
    obtain rfl := pairRole?_eq_stationary_iff.1 hrole
    exact ha
  · intro ha
    exact roleOf_eq_of_mem hpairs ha (pairRole?_eq_stationary_iff.2 rfl)

/-- A rank sends to another exactly when the other receives from it. -/
theorem sender_iff_receiver {a b : Rank} : roleOf pairs a = .sender b ↔ roleOf pairs b = .receiver a := by
  rw [roleOf_eq_sender_iff hpairs, roleOf_eq_receiver_iff hpairs]
  exact and_congr_right fun _ => ne_comm

theorem sender_injective {a b peer : Rank} (ha : roleOf pairs a = .sender peer) (hb : roleOf pairs b = .sender peer) :
    a = b := by
  rw [sender_iff_receiver hpairs] at ha hb
  exact Role.receiver.inj (ha.symm.trans hb)

theorem receiver_injective {a b peer : Rank} (ha : roleOf pairs a = .receiver peer)
    (hb : roleOf pairs b = .receiver peer) : a = b := by
  rw [← sender_iff_receiver hpairs] at ha hb
  exact Role.sender.inj (ha.symm.trans hb)

end Apart

/-! ### The roles of all ranks -/

/-- When no rank stands in two pairs, the pair a rank stands in tells its role, and the role tells the pair: a rank
paired with itself keeps its data, the first rank of another pair sends to the second one, which receives from it, and
all other ranks stand by.  Two ranks that find their roles each on their own agree on who sends to whom, and no two
ranks send to one rank or receive from one. -/
theorem roles_partition {pairs : List (Rank × Rank)} (h : clash? pairs = none) :
    (∀ rank,
      (roleOf pairs rank = .stationary ↔ (rank, rank) ∈ pairs) ∧
      (∀ peer, roleOf pairs rank = .sender peer ↔ (rank, peer) ∈ pairs ∧ peer ≠ rank) ∧
      (∀ peer, roleOf pairs rank = .receiver peer ↔ (peer, rank) ∈ pairs ∧ peer ≠ rank) ∧
      (roleOf pairs rank = .bystander ↔ ∀ a ∈ pairs, a.1 ≠ rank ∧ a.2 ≠ rank)) ∧
    (∀ a b, roleOf pairs a = .sender b ↔ roleOf pairs b = .receiver a) ∧
    ∀ a b peer, a ≠ b →
      ¬(roleOf pairs a = .sender peer ∧ roleOf pairs b = .sender peer) ∧
      ¬(roleOf pairs a = .receiver peer ∧ roleOf pairs b = .receiver peer) := by
  have hpairs : pairs.Pairwise Apart := clash?_eq_none_iff.1 h
  refine ⟨fun rank => ?_, fun a b => sender_iff_receiver hpairs, fun a b peer hne => ?_⟩
  · exact ⟨roleOf_eq_stationary_iff hpairs, fun peer => roleOf_eq_sender_iff hpairs,
      fun peer => roleOf_eq_receiver_iff hpairs, roleOf_eq_bystander_iff⟩
  · exact ⟨fun hsend => hne (sender_injective hpairs hsend.1 hsend.2),
      fun hreceive => hne (receiver_injective hpairs hreceive.1 hreceive.2)⟩

/-- Of three pairs, one of a rank with itself, the last one goes against the order of the ranks. -/
theorem roles_partition_threePairs :
    clash? [(0, 2), (1, 1), (4, 3)] = none ∧ roleOf [(0, 2), (1, 1), (4, 3)] 4 = .sender 3 ∧
      roleOf [(0, 2), (1, 1), (4, 3)] 3 = .receiver 4 ∧ roleOf [(0, 2), (1, 1), (4, 3)] 1 = .stationary ∧
      roleOf [(0, 2), (1, 1), (4, 3)] 5 = .bystander := by
  have hclash : clash? [(0, 2), (1, 1), (4, 3)] = none := by decide
  obtain ⟨hroles, hdual, -⟩ := roles_partition hclash
  have hsend : roleOf [(0, 2), (1, 1), (4, 3)] 4 = .sender 3 := ((hroles 4).2.1 3).2 (by decide)
  exact ⟨hclash, hsend, (hdual 4 3).1 hsend, (hroles 1).1.2 (by decide), (hroles 5).2.2.2.2 (by decide)⟩

end CrossMesh
