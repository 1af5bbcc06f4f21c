import CrossMesh.Proofs.Json.Words
import Mathlib.Tactic.IntervalCases

/-!
# Reading strings

`readText` reads exactly the strings that spell some characters, and `skipText` passes exactly those of the right
form.  A closing quote ends both, so neither depends on what stands behind it.
-/

namespace CrossMesh

namespace Json

variable {s r q t : List Char} {c d : Char} {n : Nat}

/-! ### Hexadecimal numbers -/

instance (c : Char) (n : Nat) : Decidable (HexDigit c n) := inferInstanceAs (Decidable (_ ∨ _))

private theorem HexDigit.lt (h : HexDigit c n) : n < 16 := by
  rcases h with h | h
  · exact (List.getElem?_eq_some_iff.1 h).1
  · exact (List.getElem?_eq_some_iff.1 h).1

/-- Digits that follow one another as characters do so as numbers. -/
private theorem hexDigit_of_run {base k count : Nat}
    (hrun : ∀ i < count, HexDigit (Char.ofNat (base + i)) (k + i)) (h₁ : base ≤ c.toNat)
    (h₂ : c.toNat < base + count) (hn : n + base = c.toNat + k) : HexDigit c n := by
  have h := hrun (c.toNat - base) (by omega)
  rwa [Nat.add_sub_cancel' h₁, Char.ofNat_toNat, show k + (c.toNat - base) = n by omega] at h

theorem hexDigit?_eq_some_iff : hexDigit? c = some n ↔ HexDigit c n := by
  constructor
  · intro h
    unfold hexDigit? at h
    split at h
    · rename_i hc
      obtain ⟨h₁, h₂⟩ : 48 ≤ c.toNat ∧ c.toNat ≤ 57 := hc
      obtain rfl := Option.some.inj h
      exact hexDigit_of_run (show ∀ i < 10, HexDigit (Char.ofNat (48 + i)) (0 + i) by decide) h₁ (by omega) (by omega)
    · split at h
      · rename_i hc
        obtain ⟨h₁, h₂⟩ : 97 ≤ c.toNat ∧ c.toNat ≤ 102 := hc
        obtain rfl := Option.some.inj h
        exact hexDigit_of_run (show ∀ i < 6, HexDigit (Char.ofNat (97 + i)) (10 + i) by decide) h₁ (by omega) (by omega)
      · split at h
        · rename_i hc
          obtain ⟨h₁, h₂⟩ : 65 ≤ c.toNat ∧ c.toNat ≤ 70 := hc
          obtain rfl := Option.some.inj h
          exact hexDigit_of_run (show ∀ i < 6, HexDigit (Char.ofNat (65 + i)) (10 + i) by decide) h₁ (by omega)
            (by omega)
        · exact absurd h (by simp)
  · intro h
    have hn := h.lt
    rcases h with h | h
    · interval_cases n <;> (obtain rfl := Option.some.inj h; decide)
    · interval_cases n <;> (obtain rfl := Option.some.inj h; decide)

private theorem hexNumber?_eq_some_iff {a b c d : Char} :
    hexNumber? [a, b, c, d] = some n ↔ HexText [a, b, c, d] n := by
  constructor
  · intro h
    simp only [hexNumber?, List.foldl_cons, List.foldl_nil, Option.bind_some, Option.bind_eq_some_iff,
      Option.map_eq_some_iff, hexDigit?_eq_some_iff] at h
    obtain ⟨_, ⟨_, ⟨_, ⟨i, hi, rfl⟩, j, hj, rfl⟩, k, hk, rfl⟩, l, hl, rfl⟩ := h
    have htext := HexText.intro hi hj hk hl
    rwa [show i * 0x1000 + j * 0x100 + k * 0x10 + l = 16 * (16 * (16 * (16 * 0 + i) + j) + k) + l by omega] at htext
  · rintro ⟨hi, hj, hk, hl⟩
    simp only [hexNumber?, List.foldl_cons, List.foldl_nil, Option.bind_some, Option.bind_eq_some_iff,
      Option.map_eq_some_iff, hexDigit?_eq_some_iff]
    exact ⟨_, ⟨_, ⟨_, ⟨_, hi, rfl⟩, _, hj, rfl⟩, _, hk, rfl⟩, _, hl, by omega⟩

theorem HexText.lt (h : HexText q n) : n < 0x10000 := by
  obtain ⟨hi, hj, hk, hl⟩ := h
  have := hi.lt
  have := hj.lt
  have := hk.lt
  have := hl.lt
  omega

theorem readHex_eq_ok_iff : readHex s = .ok (n, r) ↔ ∃ q, HexText q n ∧ s = q ++ r := by
  constructor
  · intro h
    unfold readHex at h
    split at h
    · exact absurd h (by simp)
    · split at h
      · rename_i a b c d t _
        split at h
        · rename_i m hm
          obtain ⟨rfl, rfl⟩ := Prod.mk.inj (Except.ok.inj h)
          exact ⟨[a, b, c, d], hexNumber?_eq_some_iff.1 hm, rfl⟩
        · exact absurd h (by simp)
      · exact absurd h (by simp)
  · rintro ⟨q, hq, rfl⟩
    have hm := hq
    cases hq with
    | @intro a b c d =>
      have hbytes : ¬byteCount ((a :: b :: c :: d :: r).take 4) < 4 := by
        have := a.utf8Size_pos
        have := b.utf8Size_pos
        have := c.utf8Size_pos
        have := d.utf8Size_pos
        simp only [List.take_succ_cons, List.take_zero, byteCount, List.foldr_cons, List.foldr_nil]
        omega
      simp only [readHex, List.cons_append, List.nil_append, if_neg hbytes, hexNumber?_eq_some_iff.2 hm]

/-! ### Escapes -/

theorem escaped?_eq_some_iff : escaped? d = some c ↔ (d, c) ∈ escapeLetters := by
  constructor
  · intro h
    unfold escaped? at h
    split at h
    all_goals first
      | (obtain rfl := Option.some.inj h; decide)
      | exact absurd h (by simp)
  · intro h
    simp only [escapeLetters, List.mem_cons, List.not_mem_nil, or_false, Prod.mk.injEq] at h
    rcases h with ⟨rfl, rfl⟩ | ⟨rfl, rfl⟩ | ⟨rfl, rfl⟩ | ⟨rfl, rfl⟩ | ⟨rfl, rfl⟩ | ⟨rfl, rfl⟩ | ⟨rfl, rfl⟩ | ⟨rfl, rfl⟩
    all_goals rfl

private theorem ne_of_mem_escapeLetters (h : (d, c) ∈ escapeLetters) : d ≠ 'u' := by
  rintro rfl
  simp [escapeLetters] at h

/-- No character has the number of half a surrogate pair. -/
private theorem not_surrogate (c : Char) : ¬isTrailing c.toNat ∧ ¬isLeading c.toNat := by
  have h : c.toNat < 0xd800 ∨ 0xdfff < c.toNat ∧ c.toNat < 0x110000 := c.valid
  simp only [isTrailing, isLeading, Bool.and_eq_true, decide_eq_true_eq]
  omega

private theorem toNat_ofNat (h : n < 0xd800 ∨ 0xdfff < n ∧ n < 0x110000) : (Char.ofNat n).toNat = n := by
  have hv : n.isValidChar := h
  rw [Char.ofNat, dif_pos hv]
  rfl

private theorem toNat_pairedChar {m : Nat} (hn : isLeading n) (hm : isTrailing m) :
    (pairedChar n m).toNat = 0x10000 + (n - 0xd800) * 0x400 + (m - 0xdc00) := by
  simp only [isLeading, isTrailing, Bool.and_eq_true, decide_eq_true_eq] at hn hm
  exact toNat_ofNat (by omega)

/-- A character above `0xffff` has two halves, which give it back. -/
private theorem halves_of_char (hc : 0x10000 ≤ c.toNat) :
    isLeading (0xd800 + (c.toNat - 0x10000) / 0x400) ∧ isTrailing (0xdc00 + (c.toNat - 0x10000) % 0x400) ∧
      pairedChar (0xd800 + (c.toNat - 0x10000) / 0x400) (0xdc00 + (c.toNat - 0x10000) % 0x400) = c := by
  have hlt : c.toNat < 0xd800 ∨ 0xdfff < c.toNat ∧ c.toNat < 0x110000 := c.valid
  have hleading : isLeading (0xd800 + (c.toNat - 0x10000) / 0x400) := by
    simp only [isLeading, Bool.and_eq_true, decide_eq_true_eq]
    omega
  have htrailing : isTrailing (0xdc00 + (c.toNat - 0x10000) % 0x400) := by
    simp only [isTrailing, Bool.and_eq_true, decide_eq_true_eq]
    omega
  refine ⟨hleading, htrailing, Char.toNat_inj.1 ?_⟩
  rw [toNat_pairedChar hleading htrailing]
  omega

/-- A number that is no half of a pair spells its character. -/
private theorem spells_number (hq : HexText q n) (htrailing : ¬isTrailing n) (hleading : ¬isLeading n) :
    Spells ('\\' :: 'u' :: q) (Char.ofNat n) := by
  have hn := hq.lt
  simp only [isTrailing, isLeading, Bool.and_eq_true, decide_eq_true_eq] at htrailing hleading
  refine .number ?_
  rwa [toNat_ofNat (by omega)]

/-- Two halves spell their character. -/
private theorem spells_pair {q' : List Char} {m : Nat} (hq : HexText q n) (hq' : HexText q' m) (hn : isLeading n)
    (hm : isTrailing m) : Spells ('\\' :: 'u' :: q ++ '\\' :: 'u' :: q') (pairedChar n m) := by
  have hc := toNat_pairedChar hn hm
  simp only [isLeading, isTrailing, Bool.and_eq_true, decide_eq_true_eq] at hn hm
  refine .pair (by omega) ?_ ?_
  · rwa [show 0xd800 + ((pairedChar n m).toNat - 0x10000) / 0x400 = n by omega]
  · rwa [show 0xdc00 + ((pairedChar n m).toNat - 0x10000) % 0x400 = m by omega]

theorem readCode_eq_ok_iff : readCode s = .ok (c, r) ↔ ∃ q, Spells ('\\' :: 'u' :: q) c ∧ s = q ++ r := by
  constructor
  · intro h
    unfold readCode at h
    split at h
    · exact absurd h (by simp)
    · rename_i n r₁ h₁
      obtain ⟨q, hq, rfl⟩ := readHex_eq_ok_iff.1 h₁
      split at h
      · exact absurd h (by simp)
      · rename_i htrailing
        split at h
        · rename_i hleading
          split at h
          · exact absurd h (by simp)
          · rename_i r₂ h₂
            obtain rfl := eq_append_of_readWord h₂
            split at h
            · exact absurd h (by simp)
            · rename_i m r₃ h₃
              obtain ⟨q', hq', rfl⟩ := readHex_eq_ok_iff.1 h₃
              split at h
              · rename_i hm
                obtain ⟨rfl, rfl⟩ := Prod.mk.inj (Except.ok.inj h)
                exact ⟨q ++ '\\' :: 'u' :: q', spells_pair hq hq' hleading hm, by simp⟩
              · exact absurd h (by simp)
        · rename_i hleading
          obtain ⟨rfl, rfl⟩ := Prod.mk.inj (Except.ok.inj h)
          exact ⟨q, spells_number hq htrailing hleading, rfl⟩
  · rintro ⟨q, hq, rfl⟩
    obtain ⟨htrailing, hleading⟩ := not_surrogate c
    generalize hp : '\\' :: 'u' :: q = p at hq
    cases hq with
    | plain => simp at hp
    | letter h =>
      obtain rfl : 'u' = _ := by simpa using (List.cons.inj (List.cons.inj hp).2).1
      exact absurd rfl (ne_of_mem_escapeLetters h)
    | number h =>
      obtain rfl : q = _ := by simpa using hp
      simp only [readCode, readHex_eq_ok_iff.2 ⟨_, h, rfl⟩, htrailing, hleading, Char.ofNat_toNat]
      simp
    | @pair high low _ hc hhigh hlow =>
      obtain rfl : q = high ++ '\\' :: 'u' :: low := by simpa using hp
      obtain ⟨hn, hm, hpair⟩ := halves_of_char hc
      have hn' : ¬isTrailing (0xd800 + (c.toNat - 0x10000) / 0x400) := by
        simp only [isLeading, isTrailing, Bool.and_eq_true, decide_eq_true_eq] at hn ⊢
        omega
      simp only [readCode, List.append_assoc, readHex_eq_ok_iff.2 ⟨_, hhigh, rfl⟩, hn, hn', hm, hpair, List.cons_append,
        readWord, readHex_eq_ok_iff.2 ⟨_, hlow, rfl⟩, if_true]
      simp

theorem readEscape_eq_ok_iff : readEscape s = .ok (c, r) ↔ ∃ q, Spells ('\\' :: q) c ∧ s = q ++ r := by
  constructor
  · intro h
    cases s with
    | nil => exact absurd h (by simp [readEscape])
    | cons d s =>
      simp only [readEscape] at h
      split at h
      · rename_i hd
        obtain ⟨q, hq, rfl⟩ := readCode_eq_ok_iff.1 h
        exact ⟨'u' :: q, hq, by rw [hd, List.cons_append]⟩
      · split at h
        · rename_i e he
          obtain ⟨rfl, rfl⟩ := Prod.mk.inj (Except.ok.inj h)
          exact ⟨[d], .letter (escaped?_eq_some_iff.1 he), rfl⟩
        · exact absurd h (by simp)
  · rintro ⟨q, hq, rfl⟩
    have hcode {q' : List Char} (hq' : q = 'u' :: q') : readEscape (q ++ r) = .ok (c, r) := by
      subst hq'
      simp only [List.cons_append, readEscape, if_true]
      exact readCode_eq_ok_iff.2 ⟨q', hq, rfl⟩
    generalize hp : '\\' :: q = p at hq
    cases hq with
    | plain _ _ hescape => exact absurd (List.cons.inj hp).1.symm hescape
    | letter h =>
      obtain rfl := (List.cons.inj hp).2
      simp only [List.cons_append, List.nil_append, readEscape, if_neg (ne_of_mem_escapeLetters h),
        escaped?_eq_some_iff.2 h]
    | number => exact hcode (List.cons.inj hp).2
    | pair => exact hcode (List.cons.inj hp).2

theorem skipEscape_eq_ok_iff : skipEscape s = .ok r ↔ ∃ q, PieceText ('\\' :: q) ∧ s = q ++ r := by
  constructor
  · intro h
    cases s with
    | nil => exact absurd h (by simp [skipEscape])
    | cons d s =>
      simp only [skipEscape] at h
      split at h
      · rename_i hd
        obtain ⟨⟨n, t⟩, ht, rfl⟩ := map_eq_ok.1 h
        obtain ⟨q, hq, rfl⟩ := readHex_eq_ok_iff.1 ht
        exact ⟨'u' :: q, .number hq, by rw [hd, List.cons_append]⟩
      · split at h
        · rename_i hd
          obtain ⟨e, he⟩ := Option.isSome_iff_exists.1 hd
          obtain rfl := Except.ok.inj h
          exact ⟨[d], .letter (escaped?_eq_some_iff.1 he), rfl⟩
        · exact absurd h (by simp)
  · rintro ⟨q, hq, rfl⟩
    generalize hp : '\\' :: q = p at hq
    cases hq with
    | plain _ _ hescape => exact absurd (List.cons.inj hp).1.symm hescape
    | letter h =>
      obtain rfl := (List.cons.inj hp).2
      simp only [List.cons_append, List.nil_append, skipEscape, if_neg (ne_of_mem_escapeLetters h),
        escaped?_eq_some_iff.2 h, Option.isSome_some, if_true]
    | number h =>
      obtain rfl := (List.cons.inj hp).2
      simp only [List.cons_append, skipEscape, if_true, readHex_eq_ok_iff.2 ⟨_, h, rfl⟩, Except.map]

/-! ### Strings -/

private theorem exists_escape_of_spells (h : Spells q c) :
    (q = [c] ∧ ' ' ≤ c ∧ c ≠ '"' ∧ c ≠ '\\') ∨ ∃ p, q = '\\' :: p := by
  cases h with
  | plain hlow hquote hescape => exact .inl ⟨rfl, hlow, hquote, hescape⟩
  | letter => exact .inr ⟨_, rfl⟩
  | number => exact .inr ⟨_, rfl⟩
  | pair => exact .inr ⟨_, rfl⟩

private theorem readText_append_of_spells (h : Spells q c) :
    readText (q ++ s) = (readText s).map fun t => (c :: t.1, t.2) := by
  rcases exists_escape_of_spells h with ⟨rfl, hlow, hquote, hescape⟩ | ⟨p, rfl⟩
  · rw [List.cons_append, List.nil_append, readText, if_neg hquote, if_neg hescape, if_neg (Char.not_lt.2 hlow)]
  · rw [List.cons_append, readText, if_neg (by decide), if_pos rfl]
    have he : readEscape (p ++ s) = .ok (c, s) := readEscape_eq_ok_iff.2 ⟨p, h, rfl⟩
    split
    · rename_i heq
      rw [he] at heq
      cases heq
    · rename_i heq
      rw [he] at heq
      cases heq
      rfl

theorem readText_eq_ok_iff : readText s = .ok (t, r) ↔ ∃ q, SpellsText q t ∧ s = q ++ '"' :: r := by
  constructor
  · intro h
    fun_induction readText s generalizing t with
    | case1 => exact absurd h (by simp)
    | case2 r' =>
      obtain ⟨rfl, rfl⟩ := Prod.mk.inj (Except.ok.inj h)
      exact ⟨[], .nil, rfl⟩
    | case3 => exact absurd h (by simp)
    | case4 r' d r₁ he hq ih =>
      obtain ⟨⟨t', _⟩, ht, hr⟩ := map_eq_ok.1 h
      obtain ⟨rfl, rfl⟩ := Prod.mk.inj hr
      obtain ⟨p, hp, rfl⟩ := readEscape_eq_ok_iff.1 he
      obtain ⟨q, hq, rfl⟩ := ih ht
      exact ⟨_, .cons hp hq, by simp⟩
    | case5 => exact absurd h (by simp)
    | case6 c r' hquote hescape hlow ih =>
      obtain ⟨⟨t', _⟩, ht, hr⟩ := map_eq_ok.1 h
      obtain ⟨rfl, rfl⟩ := Prod.mk.inj hr
      obtain ⟨q, hq, rfl⟩ := ih ht
      exact ⟨_, .cons (.plain (Char.not_lt.1 hlow) hquote hescape) hq, rfl⟩
  · rintro ⟨q, hq, rfl⟩
    induction hq with
    | nil => simp [readText]
    | cons hp _ ih => rw [List.append_assoc, readText_append_of_spells hp, ih]; rfl

private theorem exists_escape_of_piece (h : PieceText q) :
    (∃ c, q = [c] ∧ ' ' ≤ c ∧ c ≠ '"' ∧ c ≠ '\\') ∨ ∃ p, q = '\\' :: p := by
  cases h with
  | plain hlow hquote hescape => exact .inl ⟨_, rfl, hlow, hquote, hescape⟩
  | letter => exact .inr ⟨_, rfl⟩
  | number => exact .inr ⟨_, rfl⟩

private theorem skipText_append_of_piece (h : PieceText q) : skipText (q ++ s) = skipText s := by
  rcases exists_escape_of_piece h with ⟨c, rfl, hlow, hquote, hescape⟩ | ⟨p, rfl⟩
  · rw [List.cons_append, List.nil_append, skipText, if_neg hquote, if_neg hescape, if_neg (Char.not_lt.2 hlow)]
  · rw [List.cons_append, skipText, if_neg (by decide), if_pos rfl]
    have he : skipEscape (p ++ s) = .ok s := skipEscape_eq_ok_iff.2 ⟨p, h, rfl⟩
    split
    · rename_i heq
      rw [he] at heq
      cases heq
    · rename_i heq
      rw [he] at heq
      cases heq
      rfl

theorem skipText_eq_ok_iff : skipText s = .ok r ↔ ∃ q, BodyText q ∧ s = q ++ '"' :: r := by
  constructor
  · intro h
    fun_induction skipText s with
    | case1 => exact absurd h (by simp)
    | case2 r' =>
      obtain rfl := Except.ok.inj h
      exact ⟨[], .nil, rfl⟩
    | case3 => exact absurd h (by simp)
    | case4 r' r₁ he hq ih =>
      obtain ⟨p, hp, rfl⟩ := skipEscape_eq_ok_iff.1 he
      obtain ⟨q, hq, rfl⟩ := ih h
      exact ⟨_, .cons hp hq, by simp⟩
    | case5 => exact absurd h (by simp)
    | case6 c r' hquote hescape hlow ih =>
      obtain ⟨q, hq, rfl⟩ := ih h
      exact ⟨_, .cons (.plain (Char.not_lt.1 hlow) hquote hescape) hq, rfl⟩
  · rintro ⟨q, hq, rfl⟩
    induction hq with
    | nil => simp [skipText]
    | cons hp _ ih => rw [List.append_assoc, skipText_append_of_piece hp, ih]

end Json

end CrossMesh
