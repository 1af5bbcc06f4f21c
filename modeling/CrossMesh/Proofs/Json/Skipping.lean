import CrossMesh.Proofs.Json.Numbers
import CrossMesh.Proofs.Json.Strings

/-!
# Skipping values

`skipValue` passes one value, of any depth, and nothing else (`exists_of_skipValue`, `skipValue_append`).  While it is
inside brackets, `Closes` is what they still ask of the text: the rest of the items of each, and its end.
-/

namespace CrossMesh

namespace Json

variable {s r v : List Char} {c : Char} {b : Bracket}

/-! ### What stands behind a value -/

/-- Nothing follows, or a blank, or a mark of what is around. -/
def Delimited (r : List Char) : Prop := ∀ c ∈ r.head?, isBlank c ∨ c ∈ [',', ']', '\x7d']

theorem delimited_comma (r : List Char) : Delimited (',' :: r) := by
  rintro c ⟨⟩
  exact .inr (by simp)

theorem delimited_closer (b : Bracket) (r : List Char) : Delimited (b.closer :: r) := by
  rintro c ⟨⟩
  exact .inr (by cases b <;> simp [Bracket.closer])

theorem Delimited.blanks_append {a : List Char} (ha : Blanks a) (hr : Delimited r) : Delimited (a ++ r) := by
  cases a with
  | nil => exact hr
  | cons d a =>
    rintro c ⟨⟩
    exact .inl (isBlank_iff.2 (ha d (by simp)))

theorem Delimited.numberEnd (hr : Delimited r) : NumberEnd r := by
  intro c hc
  have h := hr c hc
  rw [isBlank_iff] at h
  simp only [List.mem_cons, List.not_mem_nil, or_false] at h
  rcases h with (rfl | rfl | rfl | rfl) | rfl | rfl | rfl <;> decide

/-! ### Scalars -/

/-- The characters that a scalar starts with. -/
private def StartsScalar (c : Char) : Prop := c ∈ ['n', 't', 'f', '"', '-'] ∨ c.isDigit

private theorem ScalarText.exists_head (hv : ScalarText v) : ∃ c t, v = c :: t ∧ StartsScalar c := by
  cases hv with
  | null => exact ⟨'n', _, rfl, .inl (by simp)⟩
  | boolean b =>
    cases b with
    | false => exact ⟨'f', _, rfl, .inl (by simp)⟩
    | true => exact ⟨'t', _, rfl, .inl (by simp)⟩
  | string => exact ⟨'"', _, rfl, .inl (by simp)⟩
  | positive h =>
    obtain ⟨c, t, rfl, hc⟩ := h.exists_digit
    exact ⟨c, t, rfl, .inr hc⟩
  | negative => exact ⟨'-', _, rfl, .inl (by simp)⟩

private theorem not_mem_of_isDigit (hc : c.isDigit) :
    c ∉ [' ', '\t', '\n', '\r', 'n', 't', 'f', '"', '-', '[', ']', '\x7b', '\x7d'] := by
  intro h
  simp only [List.mem_cons, List.not_mem_nil, or_false] at h
  rcases h with rfl | rfl | rfl | rfl | rfl | rfl | rfl | rfl | rfl | rfl | rfl | rfl | rfl <;> simp at hc

/-- A scalar does not start as anything else. -/
private theorem StartsScalar.apart (hc : StartsScalar c) : ¬isBlank c ∧ c ∉ ['[', ']', '\x7b', '\x7d'] := by
  rcases hc with hc | hc
  · simp only [List.mem_cons, List.not_mem_nil, or_false] at hc
    rcases hc with rfl | rfl | rfl | rfl | rfl <;> decide
  · have h := not_mem_of_isDigit hc
    rw [isBlank_iff]
    simp only [List.mem_cons, List.not_mem_nil, or_false, not_or] at h ⊢
    tauto

theorem exists_of_skipScalar (h : skipScalar s = .ok r) : ∃ v, ScalarText v ∧ s = v ++ r := by
  cases s with
  | nil => exact absurd h (by simp [skipScalar])
  | cons c s =>
    simp only [skipScalar] at h
    split at h
    · rename_i hc
      exact ⟨_, .null, by rw [hc, eq_append_of_readWord h]; rfl⟩
    · split at h
      · rename_i hc
        exact ⟨_, .boolean true, by rw [hc, eq_append_of_readWord h]; rfl⟩
      · split at h
        · rename_i hc
          exact ⟨_, .boolean false, by rw [hc, eq_append_of_readWord h]; rfl⟩
        · split at h
          · rename_i hc
            obtain ⟨q, hq, rfl⟩ := skipText_eq_ok_iff.1 h
            exact ⟨_, .string hq, by simp [hc]⟩
          · split at h
            · rename_i hc
              obtain ⟨q, hq, rfl⟩ := exists_of_skipNumber h
              exact ⟨_, .negative hq, by rw [hc, List.cons_append]⟩
            · split at h
              · obtain ⟨q, hq, hs⟩ := exists_of_skipNumber h
                exact ⟨_, .positive hq, hs⟩
              · exact absurd h (by simp)

theorem skipScalar_append (hv : ScalarText v) (hr : Delimited r) : skipScalar (v ++ r) = .ok r := by
  cases hv with
  | null => rfl
  | boolean b => cases b <;> rfl
  | @string q h =>
    have ht : skipText (q ++ '"' :: r) = .ok r := skipText_eq_ok_iff.2 ⟨q, h, rfl⟩
    simpa [skipScalar] using ht
  | positive h =>
    have hn := skipNumber_append h hr.numberEnd
    obtain ⟨c, t, rfl, hc⟩ := h.exists_digit
    have hapart := not_mem_of_isDigit hc
    simp only [List.mem_cons, List.not_mem_nil, or_false, not_or] at hapart
    simpa [skipScalar, hapart, hc] using hn
  | negative h =>
    have hn := skipNumber_append h hr.numberEnd
    simpa [skipScalar] using hn

/-! ### Labels -/

theorem skipKey_eq_ok_iff : skipKey b s = .ok r ↔ ∃ k, LabelText b k ∧ s = k ++ r := by
  cases b with
  | square =>
    constructor
    · intro h
      obtain rfl := Except.ok.inj h
      exact ⟨[], .element, rfl⟩
    · rintro ⟨_, ⟨⟩, rfl⟩
      rfl
  | curly =>
    constructor
    · intro h
      obtain ⟨s₁, h₁, h⟩ := bind_eq_ok.1 h
      obtain ⟨s₂, h₂, h₃⟩ := bind_eq_ok.1 h
      obtain ⟨a, ha, rfl⟩ := (readWord_dropBlanks_eq_ok_iff (by decide)).1 h₁
      obtain ⟨q, hq, rfl⟩ := skipText_eq_ok_iff.1 h₂
      obtain ⟨t, ht, rfl⟩ := readColon_eq_ok_iff.1 h₃
      exact ⟨_, .key ha hq ht, by simp⟩
    · rintro ⟨k, hk, rfl⟩
      cases hk with
      | @key a q t ha hq ht =>
        refine bind_eq_ok.2 ⟨q ++ '"' :: t ++ ':' :: r, ?_, bind_eq_ok.2 ⟨t ++ ':' :: r, ?_, ?_⟩⟩
        · exact (readWord_dropBlanks_eq_ok_iff (by decide)).2 ⟨a, ha, by simp⟩
        · exact skipText_eq_ok_iff.2 ⟨q, hq, by simp⟩
        · exact readColon_eq_ok_iff.2 ⟨t, ht, rfl⟩

/-! ### What the open brackets ask -/

/-- What stands between a value in a bracket and the end of that bracket. -/
inductive ItemsEnd (b : Bracket) : List Char → Prop
  | blanks {s : List Char} (h : Blanks s) : ItemsEnd b s
  | items {s t : List Char} (hs : Blanks s) (h : ItemsText b t) : ItemsEnd b (s ++ ',' :: t)

/-- What stands between a value and the end of the outermost of the brackets around it. -/
inductive Closes : List Bracket → List Char → Prop
  | nil : Closes [] []
  | cons {b : Bracket} {outer : List Bracket} {s t : List Char} (hs : ItemsEnd b s) (ht : Closes outer t) :
      Closes (b :: outer) (s ++ b.closer :: t)

private theorem ItemsText.of_end {k a t : List Char} (hk : LabelText b k) (ha : Blanks a) (hv : ValueText v)
    (ht : ItemsEnd b t) : ItemsText b (k ++ a ++ v ++ t) := by
  cases ht with
  | blanks h => exact .last hk ha hv h
  | items hs h => simpa using ItemsText.cons hk ha hv hs h

/-- A value in a bracket, up to the end of that bracket, is the last part of the value that the bracket is. -/
private theorem exists_value_of_closes {outer : List Bracket} {k a m : List Char} (hk : LabelText b k) (ha : Blanks a)
    (hv : ValueText v) (hm : Closes (b :: outer) m) :
    ∃ i t, ItemsText b i ∧ Closes outer t ∧ k ++ a ++ v ++ m = i ++ b.closer :: t := by
  cases hm with
  | cons hs ht => exact ⟨_, _, .of_end hk ha hv hs, ht, by simp⟩

/-! ### Steps

The equations of the two readers, without the proofs that their termination carries along. -/

theorem skipValueIn_eq (around : List Bracket) (s : List Char) :
    skipValueIn around s = match opening? (dropBlanks s) with
      | none => skipScalar (dropBlanks s) >>= skipRest around
      | some (b, r) => match closing? b r with
        | some r => skipRest around r
        | none => skipKey b r >>= skipValueIn (b :: around) := by
  rw [skipValueIn]
  split
  · rename_i ho
    rw [ho]
    split <;> simp_all [bind, Except.bind]
  · rename_i b r ho
    rw [ho]
    split
    · simp_all
    · split <;> simp_all [bind, Except.bind]

@[simp]
theorem skipRest_nil (s : List Char) : skipRest [] s = .ok s := by
  rw [skipRest]

theorem skipRest_cons (b : Bracket) (outer : List Bracket) (s : List Char) :
    skipRest (b :: outer) s = match closing? b s with
      | some r => skipRest outer r
      | none => readComma s >>= fun r => skipKey b r >>= skipValueIn (b :: outer) := by
  rw [skipRest]
  split
  · simp_all
  · split
    · simp_all [bind, Except.bind]
    · split <;> simp_all [bind, Except.bind]

/-! ### What is passed has the form of a value -/

/-- What a run passes is a value and what the brackets around it ask, or only the latter. -/
private theorem exists_of_skip :
    (∀ around s, ∀ r, skipValueIn around s = .ok r →
      ∃ a v t, Blanks a ∧ ValueText v ∧ Closes around t ∧ s = a ++ v ++ t ++ r) ∧
    (∀ around s, ∀ r, skipRest around s = .ok r → ∃ t, Closes around t ∧ s = t ++ r) := by
  -- one case for each way through the two readers; those that fail have nothing to show
  apply skipValueIn.mutual_induct
  case case1 =>
    intro around s ho e he r h
    rw [skipValueIn_eq] at h
    simp [ho, he, bind, Except.bind] at h
  case case2 =>
    intro around s ho t ht ih r h
    rw [skipValueIn_eq] at h
    simp only [ho, ht, bind, Except.bind] at h
    obtain ⟨a, ha, hs⟩ := exists_blanks s
    obtain ⟨v, hv, hv'⟩ := exists_of_skipScalar ht
    obtain ⟨m, hm, rfl⟩ := ih r h
    exact ⟨a, v, m, ha, .scalar hv, hm, by rw [hs, hv']; simp⟩
  case case3 =>
    intro around s b t ho t' ht ih r h
    rw [skipValueIn_eq] at h
    simp only [ho, ht] at h
    obtain ⟨a, ha, hs⟩ := exists_of_dropBlanks_eq (opening?_eq_some_iff.1 ho)
    obtain ⟨q, hq, rfl⟩ := closing?_eq_some_iff.1 ht
    obtain ⟨m, hm, rfl⟩ := ih r h
    exact ⟨a, _, m, ha, .empty b hq, hm, by rw [hs]; simp⟩
  case case4 =>
    intro around s b t ho hc e he r h
    rw [skipValueIn_eq] at h
    simp [ho, hc, he, bind, Except.bind] at h
  case case5 =>
    intro around s b t ho hc t' ht ih r h
    rw [skipValueIn_eq] at h
    simp only [ho, hc, ht, bind, Except.bind] at h
    obtain ⟨a, ha, hs⟩ := exists_of_dropBlanks_eq (opening?_eq_some_iff.1 ho)
    obtain ⟨k, hk, rfl⟩ := skipKey_eq_ok_iff.1 ht
    obtain ⟨a', v, m, ha', hv, hm, rfl⟩ := ih r h
    obtain ⟨i, m', hi, hm', he⟩ := exists_value_of_closes hk ha' hv hm
    refine ⟨a, _, m', ha, .items hi, hm', ?_⟩
    calc
      s = a ++ b.opener :: (k ++ a' ++ v ++ m ++ r) := by rw [hs]; simp
      _ = a ++ (b.opener :: i ++ [b.closer]) ++ m' ++ r := by rw [he]; simp
  case case6 =>
    intro s r h
    simp only [skipRest_nil, Except.ok.injEq] at h
    exact ⟨[], .nil, by simp [h]⟩
  case case7 =>
    intro s b outer t ht ih r h
    rw [skipRest_cons] at h
    simp only [ht] at h
    obtain ⟨a, ha, rfl⟩ := closing?_eq_some_iff.1 ht
    obtain ⟨m, hm, rfl⟩ := ih r h
    exact ⟨_, .cons (.blanks ha) hm, by simp⟩
  case case8 =>
    intro s b outer hc e he r h
    rw [skipRest_cons] at h
    simp [hc, he, bind, Except.bind] at h
  case case9 =>
    intro s b outer hc t ht e he r h
    rw [skipRest_cons] at h
    simp [hc, ht, he, bind, Except.bind] at h
  case case10 =>
    intro s b outer hc t ht t' ht' ih r h
    rw [skipRest_cons] at h
    simp only [hc, ht, ht', bind, Except.bind] at h
    obtain ⟨a, ha, rfl⟩ := readComma_eq_ok_iff.1 ht
    obtain ⟨k, hk, rfl⟩ := skipKey_eq_ok_iff.1 ht'
    obtain ⟨a', v, m, ha', hv, hm, rfl⟩ := ih r h
    obtain ⟨i, m', hi, hm', he⟩ := exists_value_of_closes hk ha' hv hm
    refine ⟨_, .cons (.items ha hi) hm', ?_⟩
    calc
      a ++ ',' :: (k ++ (a' ++ v ++ m ++ r)) = a ++ ',' :: (k ++ a' ++ v ++ m ++ r) := by simp
      _ = a ++ ',' :: i ++ b.closer :: m' ++ r := by rw [he]; simp

theorem exists_of_skipValue (h : skipValue s = .ok r) : ∃ a v, Blanks a ∧ ValueText v ∧ s = a ++ v ++ r := by
  obtain ⟨a, v, t, ha, hv, ht, hs⟩ := exists_of_skip.1 [] s r h
  cases ht with
  | nil => exact ⟨a, v, ha, hv, by simpa using hs⟩

/-! ### Every value is passed -/

/-- A value starts with a mark of its own. -/
theorem ValueText.exists_head (hv : ValueText v) : ∃ c t, v = c :: t ∧ ¬isBlank c ∧ c ∉ [']', '\x7d'] := by
  have hopener (b : Bracket) : ¬isBlank b.opener ∧ b.opener ∉ [']', '\x7d'] := by
    cases b <;> decide
  cases hv with
  | scalar h =>
    obtain ⟨c, t, rfl, hc⟩ := h.exists_head
    obtain ⟨hblank, hmarks⟩ := hc.apart
    exact ⟨c, t, rfl, hblank, by simp_all⟩
  | empty b => exact ⟨_, _, rfl, hopener b⟩
  | items => exact ⟨_, _, rfl, hopener _⟩

private theorem opening?_append_of_scalar (hv : ScalarText v) : opening? (v ++ r) = none := by
  obtain ⟨c, t, rfl, hc⟩ := hv.exists_head
  have hmarks := hc.apart.2
  rw [List.cons_append, opening?]
  · rintro _ ⟨⟩
    simp at hmarks
  · rintro _ ⟨⟩
    simp at hmarks

/-- The items of a bracket do not start with its end. -/
private theorem closing?_items {k a t : List Char} (hk : LabelText b k) (ha : Blanks a) (hv : ValueText v) :
    closing? b (k ++ a ++ v ++ t) = none := by
  cases hk with
  | element =>
    obtain ⟨c, v, rfl, hblank, hmarks⟩ := hv.exists_head
    rw [List.nil_append, List.append_assoc, List.cons_append]
    exact closing?_append_cons ha hblank fun hc => hmarks (by simp [hc, Bracket.closer])
  | @key s q u hs =>
    simp only [List.append_assoc, List.cons_append]
    exact closing?_append_cons hs (by decide) (by decide)

private theorem dropBlanks_append_value {a : List Char} (ha : Blanks a) (hv : ValueText v) :
    dropBlanks (a ++ v ++ r) = v ++ r := by
  obtain ⟨c, t, rfl, hblank, -⟩ := hv.exists_head
  rw [List.append_assoc, List.cons_append, dropBlanks_append_cons ha hblank]

private theorem opening?_append_bracket {a : List Char} (ha : Blanks a) (b : Bracket) (s r : List Char) :
    opening? (dropBlanks (a ++ (b.opener :: s ++ [b.closer]) ++ r)) = some (b, s ++ b.closer :: r) := by
  refine opening?_eq_some_iff.2 ?_
  have hb : ¬isBlank b.opener := by cases b <;> decide
  rw [List.append_assoc, List.cons_append, List.cons_append, dropBlanks_append_cons ha hb]
  simp

/-- The label and the value of an item are passed together. -/
private theorem skipKey_item {around : List Bracket} {k a t : List Char} (hk : LabelText b k)
    (hv : skipValueIn (b :: around) (a ++ v ++ t) = skipRest (b :: around) t) :
    (skipKey b (k ++ a ++ v ++ t) >>= skipValueIn (b :: around)) = skipRest (b :: around) t := by
  have hkey : skipKey b (k ++ a ++ v ++ t) = .ok (a ++ v ++ t) := skipKey_eq_ok_iff.2 ⟨k, hk, by simp⟩
  rw [hkey]
  exact hv

mutual

private theorem skipValueIn_append {around : List Bracket} {a v r : List Char} (hv : ValueText v) (ha : Blanks a)
    (hr : Delimited r) : skipValueIn around (a ++ v ++ r) = skipRest around r := by
  rw [skipValueIn_eq]
  cases hv with
  | scalar h =>
    rw [dropBlanks_append_value ha (.scalar h), opening?_append_of_scalar h, skipScalar_append h hr]
    rfl
  | empty b h =>
    rw [opening?_append_bracket ha]
    simp only [closing?_eq_some_iff.2 ⟨_, h, rfl⟩]
  | @items b i h =>
    obtain ⟨hc, hi⟩ := @skipKey_items around b i r h
    rw [opening?_append_bracket ha]
    simp only [hc, hi]
-- a value in brackets is longer than its items, but an item may be nothing but its value
termination_by 2 * v.length
decreasing_by
  simp only [List.length_append, List.length_cons]
  omega

private theorem skipKey_items {around : List Bracket} {b : Bracket} {i r : List Char} (hi : ItemsText b i) :
    closing? b (i ++ b.closer :: r) = none ∧
      (skipKey b (i ++ b.closer :: r) >>= skipValueIn (b :: around)) = skipRest around r := by
  cases hi with
  | @last _ k s v t hk hs hv ht =>
    have hd := (delimited_closer b r).blanks_append ht
    rw [List.append_assoc _ t]
    refine ⟨closing?_items hk hs hv, ?_⟩
    rw [skipKey_item hk (skipValueIn_append hv hs hd), skipRest_cons, closing?_eq_some_iff.2 ⟨t, ht, rfl⟩]
  | @cons _ k s v t rest hk hs hv ht hrest =>
    have hd := (delimited_comma (rest ++ b.closer :: r)).blanks_append ht
    have hcomma : readComma (t ++ ',' :: (rest ++ b.closer :: r)) = .ok (rest ++ b.closer :: r) :=
      readComma_eq_ok_iff.2 ⟨t, ht, rfl⟩
    have hc : closing? b (t ++ ',' :: (rest ++ b.closer :: r)) = none :=
      closing?_append_cons ht (by decide) (by cases b <;> decide)
    rw [show k ++ s ++ v ++ t ++ ',' :: rest ++ b.closer :: r =
      k ++ s ++ v ++ (t ++ ',' :: (rest ++ b.closer :: r)) by simp]
    refine ⟨closing?_items hk hs hv, ?_⟩
    rw [skipKey_item hk (skipValueIn_append hv hs hd), skipRest_cons, hc, hcomma]
    exact (skipKey_items hrest).2
termination_by 2 * i.length + 1
decreasing_by
  all_goals
    simp only [List.length_append, List.length_cons]
    omega

end

theorem skipValue_append {a : List Char} (ha : Blanks a) (hv : ValueText v) (hr : Delimited r) :
    skipValue (a ++ v ++ r) = .ok r := by
  rw [skipValue, skipValueIn_append hv ha hr, skipRest_nil]

end Json

end CrossMesh
