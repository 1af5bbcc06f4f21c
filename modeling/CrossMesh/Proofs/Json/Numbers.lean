import CrossMesh.Proofs.Json.Words

/-!
# Skipping numbers

`skipNumber` passes a number and nothing else.  A number has no end of its own: it is passed as a whole only in front
of something that cannot continue it.
-/

namespace CrossMesh

namespace Json

variable {s r q : List Char}

/-- The text cannot continue a number. -/
def NumberEnd (r : List Char) : Prop := ∀ c ∈ r.head?, ¬c.isDigit ∧ c ∉ ['.', 'e', 'E']

/-! ### Digits -/

private theorem exists_digits {c : Char} (hc : c.isDigit) (s : List Char) :
    ∃ q, Digits q ∧ c :: s = q ++ s.dropWhile Char.isDigit := by
  refine ⟨c :: s.takeWhile Char.isDigit, ⟨by simp, ?_⟩, ?_⟩
  · intro d hd
    rcases List.mem_cons.1 hd with rfl | hd
    · exact hc
    · exact List.mem_takeWhile_imp hd
  · rw [List.cons_append, List.takeWhile_append_dropWhile]

private theorem exists_of_skipDigits (h : skipDigits s = .ok r) : ∃ q, Digits q ∧ s = q ++ r := by
  cases s with
  | nil => exact absurd h (by simp [skipDigits])
  | cons c s =>
    simp only [skipDigits] at h
    split at h
    · rename_i hc
      obtain rfl := Except.ok.inj h
      exact exists_digits hc s
    · exact absurd h (by simp)

private theorem skipDigits_append (hq : Digits q) (hr : ∀ c ∈ r.head?, ¬c.isDigit) : skipDigits (q ++ r) = .ok r := by
  obtain ⟨hne, hq⟩ := hq
  obtain ⟨c, q, rfl⟩ := List.exists_cons_of_ne_nil hne
  rw [List.forall_mem_cons] at hq
  rw [List.cons_append, skipDigits, if_pos hq.1, List.dropWhile_append_of_pos hq.2]
  cases r with
  | nil => rfl
  | cons d r => rw [List.dropWhile_cons_of_neg (hr d rfl)]

/-! ### Parts -/

private theorem exists_of_skipWhole (h : skipWhole s = .ok r) : ∃ q, WholeText q ∧ s = q ++ r := by
  cases s with
  | nil => exact absurd h (by simp [skipWhole])
  | cons c s =>
    simp only [skipWhole] at h
    split at h
    · rename_i hc
      subst hc
      split at h
      · split at h
        · exact absurd h (by simp)
        · obtain rfl := Except.ok.inj h
          exact ⟨['0'], .zero, rfl⟩
      · obtain rfl := Except.ok.inj h
        exact ⟨['0'], .zero, rfl⟩
    · rename_i hc
      obtain ⟨q, hq, hs⟩ := exists_of_skipDigits h
      obtain ⟨d, q, rfl⟩ := List.exists_cons_of_ne_nil hq.1
      obtain rfl := (List.cons.inj hs).1
      exact ⟨_, .digits hc hq, hs⟩

private theorem skipWhole_append (hq : WholeText q) (hr : ∀ c ∈ r.head?, ¬c.isDigit) : skipWhole (q ++ r) = .ok r := by
  cases hq with
  | zero =>
    cases r with
    | nil => rfl
    | cons d r => simp [skipWhole, hr d rfl]
  | digits hne h =>
    simp only [List.cons_append, skipWhole, if_neg hne]
    exact skipDigits_append h hr

private theorem exists_of_skipFraction (h : skipFraction s = .ok r) : ∃ q, FractionText q ∧ s = q ++ r := by
  unfold skipFraction at h
  split at h
  · obtain ⟨q, hq, rfl⟩ := exists_of_skipDigits h
    exact ⟨_, .digits hq, rfl⟩
  · obtain rfl := Except.ok.inj h
    exact ⟨[], .none, rfl⟩

private theorem skipFraction_append (hq : FractionText q) (hr : ∀ c ∈ r.head?, ¬c.isDigit ∧ c ≠ '.') :
    skipFraction (q ++ r) = .ok r := by
  cases hq with
  | none =>
    rw [List.nil_append, skipFraction]
    rintro t rfl
    exact (hr '.' rfl).2 rfl
  | digits h => exact skipDigits_append h fun c hc => (hr c hc).1

private theorem exists_sign (s : List Char) : ∃ sign ∈ [[], ['+'], ['-']], s = sign ++ dropSign s := by
  unfold dropSign
  split
  · exact ⟨['+'], by simp, rfl⟩
  · exact ⟨['-'], by simp, rfl⟩
  · exact ⟨[], by simp, rfl⟩

private theorem dropSign_append {sign : List Char} (hsign : sign ∈ [[], ['+'], ['-']]) (hq : Digits q) :
    dropSign (sign ++ q ++ r) = q ++ r := by
  obtain ⟨c, q, rfl⟩ := List.exists_cons_of_ne_nil hq.1
  have hc := hq.2 c (by simp)
  simp only [List.mem_cons, List.not_mem_nil, or_false] at hsign
  rcases hsign with rfl | rfl | rfl
  · rw [List.nil_append, List.cons_append, dropSign]
    · rintro t ⟨⟩
      exact absurd hc (by decide)
    · rintro t ⟨⟩
      exact absurd hc (by decide)
  · rfl
  · rfl

private theorem exists_of_skipExponent (h : skipExponent s = .ok r) : ∃ q, ExponentText q ∧ s = q ++ r := by
  cases s with
  | nil =>
    obtain rfl := Except.ok.inj h
    exact ⟨[], .none, rfl⟩
  | cons c s =>
    simp only [skipExponent] at h
    split at h
    · rename_i hc
      obtain ⟨q, hq, hs⟩ := exists_of_skipDigits h
      obtain ⟨sign, hsign, hs'⟩ := exists_sign s
      exact ⟨_, .digits hc hsign hq, by rw [hs', hs]; simp⟩
    · obtain rfl := Except.ok.inj h
      exact ⟨[], .none, rfl⟩

private theorem skipExponent_append (hq : ExponentText q) (hr : NumberEnd r) : skipExponent (q ++ r) = .ok r := by
  cases hq with
  | none =>
    cases r with
    | nil => rfl
    | cons c r =>
      have hc := (hr c rfl).2
      rw [List.nil_append, skipExponent, if_neg (by simp_all)]
  | digits he hsign h =>
    rw [List.cons_append, List.cons_append, skipExponent, if_pos he, dropSign_append hsign h]
    exact skipDigits_append h fun c hc => (hr c hc).1

/-! ### Numbers -/

theorem exists_of_skipNumber (h : skipNumber s = .ok r) : ∃ q, UnsignedText q ∧ s = q ++ r := by
  obtain ⟨s₁, h₁, h⟩ := bind_eq_ok.1 h
  obtain ⟨s₂, h₂, h₃⟩ := bind_eq_ok.1 h
  obtain ⟨whole, hwhole, rfl⟩ := exists_of_skipWhole h₁
  obtain ⟨fraction, hfraction, rfl⟩ := exists_of_skipFraction h₂
  obtain ⟨exponent, hexponent, rfl⟩ := exists_of_skipExponent h₃
  exact ⟨_, .intro hwhole hfraction hexponent, by simp⟩

/-- What stands behind a fraction does not continue it. -/
private theorem ExponentText.head_append (hq : ExponentText q) (hr : NumberEnd r) :
    ∀ c ∈ (q ++ r).head?, ¬c.isDigit ∧ c ≠ '.' := by
  cases hq with
  | none => exact fun c hc => ⟨(hr c hc).1, fun hd => (hr c hc).2 (by simp [hd])⟩
  | digits he =>
    rintro c ⟨⟩
    rcases he with rfl | rfl <;> decide

/-- What stands behind a whole part does not continue it. -/
private theorem FractionText.head_append (hq : FractionText q) (hr : ∀ c ∈ r.head?, ¬c.isDigit ∧ c ≠ '.') :
    ∀ c ∈ (q ++ r).head?, ¬c.isDigit := by
  cases hq with
  | none => exact fun c hc => (hr c hc).1
  | digits =>
    rintro c ⟨⟩
    decide

theorem skipNumber_append (hq : UnsignedText q) (hr : NumberEnd r) : skipNumber (q ++ r) = .ok r := by
  obtain ⟨hwhole, hfraction, hexponent⟩ := hq
  have he := hexponent.head_append hr
  refine bind_eq_ok.2 ⟨_, ?_, bind_eq_ok.2 ⟨_, skipFraction_append hfraction he, skipExponent_append hexponent hr⟩⟩
  rw [List.append_assoc, List.append_assoc]
  exact skipWhole_append hwhole (hfraction.head_append he)

/-- A number starts with a digit. -/
theorem UnsignedText.exists_digit (hq : UnsignedText q) : ∃ c s, q = c :: s ∧ c.isDigit := by
  obtain ⟨hwhole, -, -⟩ := hq
  cases hwhole with
  | zero => exact ⟨'0', _, rfl, by decide⟩
  | digits _ h => exact ⟨_, _, rfl, h.2 _ (by simp)⟩

end Json

end CrossMesh
