import CrossMesh.Proofs.Transfer.Clash

/-!
# Channels of pairs

A pair of two ranks has a channel from the first to the second one, and one back if that is wanted; a rank alone asks
for those of the pairs it stands in (`mem_channels_iff`).  Every channel joins two ranks, so ranks of which one stands
in each pair of two ask together for all channels (`mem_flatMap_channels_iff`).
-/

namespace CrossMesh

variable {pairs : List (Rank × Rank)} {rank : Option Rank} {eagerReverse : Bool} {members : List Rank}

theorem mem_pairChannels_iff {pair : Rank × Rank} : members ∈ pairChannels eagerReverse pair ↔
    members = [pair.1, pair.2] ∨ eagerReverse = true ∧ members = [pair.2, pair.1] := by
  unfold pairChannels
  cases eagerReverse <;> simp

theorem mem_channels_iff : members ∈ channels pairs rank eagerReverse ↔
    ∃ a b, (a, b) ∈ pairs ∧ a ≠ b ∧ Concerns rank (a, b) ∧
      (members = [a, b] ∨ eagerReverse = true ∧ members = [b, a]) := by
  unfold channels
  rw [List.mem_flatMap]
  constructor
  · rintro ⟨⟨a, b⟩, hpair, hmembers⟩
    obtain ⟨hmem, hkept⟩ := List.mem_filter.1 hpair
    obtain ⟨hne, hconcerns⟩ := of_decide_eq_true hkept
    exact ⟨a, b, hmem, hne, hconcerns, mem_pairChannels_iff.1 hmembers⟩
  · rintro ⟨a, b, hmem, hne, hconcerns, hmembers⟩
    exact ⟨(a, b), List.mem_filter.2 ⟨hmem, decide_eq_true ⟨hne, hconcerns⟩⟩, mem_pairChannels_iff.2 hmembers⟩

theorem concerns_none (pair : Rank × Rank) : Concerns none pair :=
  fun _ hr => absurd hr (Option.not_mem_none _)

/-- A channel joins two ranks. -/
theorem nodup_of_mem_channels (h : members ∈ channels pairs rank eagerReverse) : members.Nodup := by
  obtain ⟨a, b, -, hne, -, rfl | ⟨-, rfl⟩⟩ := mem_channels_iff.1 h
  · simpa using hne
  · simpa using Ne.symm hne

/-- Ranks of which one stands in each pair of two ask for all channels. -/
theorem mem_flatMap_channels_iff {ranks : List Rank}
    (hranks : ∀ a b, (a, b) ∈ pairs → a ≠ b → a ∈ ranks ∨ b ∈ ranks) :
    members ∈ ranks.flatMap (fun r => channels pairs (some r) eagerReverse) ↔
      members ∈ channels pairs none eagerReverse := by
  rw [List.mem_flatMap]
  constructor
  · rintro ⟨r, -, hmembers⟩
    obtain ⟨a, b, hmem, hne, -, hends⟩ := mem_channels_iff.1 hmembers
    exact mem_channels_iff.2 ⟨a, b, hmem, hne, concerns_none _, hends⟩
  · intro hmembers
    obtain ⟨a, b, hmem, hne, -, hends⟩ := mem_channels_iff.1 hmembers
    rcases hranks a b hmem hne with ha | hb
    · exact ⟨a, ha, mem_channels_iff.2 ⟨a, b, hmem, hne, concerns_some_iff.2 (.inl rfl), hends⟩⟩
    · exact ⟨b, hb, mem_channels_iff.2 ⟨a, b, hmem, hne, concerns_some_iff.2 (.inr rfl), hends⟩⟩

end CrossMesh
