import CrossMesh.Config.Reader
import CrossMesh.Proofs.Json.Skipping

/-!
# Reading the values of settings

Which values name a stream, and which are flags.  Neither reader depends on what stands behind the value.
-/

namespace CrossMesh

namespace Config

open Json

variable {s r v : List Char} {stream : StreamKind} {b : Bool}

/-- The value names a stream: it is a string with its name, or an object that maps the name to null. -/
inductive StreamText : List Char → StreamKind → Prop
  | name {q : List Char} {stream : StreamKind} (h : SpellsText q stream.name.toList) :
      StreamText ('"' :: q ++ ['"']) stream
  | object {s : List Char} {stream : StreamKind} (h : ObjectText [⟨stream.name.toList, "null".toList⟩] s) :
      StreamText s stream

/-- The value is a boolean. -/
inductive FlagText : List Char → Bool → Prop
  | intro (b : Bool) : FlagText (booleanText b).toList b

/-! ### Streams -/

theorem readStreamName_eq_ok_iff :
    readStreamName s = .ok (stream, r) ↔ ∃ q, SpellsText q stream.name.toList ∧ s = q ++ '"' :: r := by
  constructor
  · intro h
    obtain ⟨⟨name, r₁⟩, ht, h⟩ := bind_eq_ok.1 h
    dsimp only at h
    split at h
    · rename_i hname
      obtain ⟨rfl, rfl⟩ := Prod.mk.inj (Except.ok.inj h)
      have hname := StreamKind.ofName?_eq_some.1 hname
      obtain ⟨q, hq, rfl⟩ := readText_eq_ok_iff.1 ht
      exact ⟨q, by rwa [hname, String.toList_ofList], rfl⟩
    · exact absurd h (by simp)
  · rintro ⟨q, hq, rfl⟩
    refine bind_eq_ok.2 ⟨_, readText_eq_ok_iff.2 ⟨q, hq, rfl⟩, ?_⟩
    simp only [String.ofList_toList, StreamKind.ofName?_eq_some.2 rfl]

theorem readNull_eq_ok_iff : readNull s = .ok r ↔ ∃ a, Blanks a ∧ s = a ++ "null".toList ++ r := by
  constructor
  · intro h
    unfold readNull at h
    split at h
    · rename_i t ht
      obtain ⟨a, ha, rfl⟩ := exists_of_dropBlanks_eq ht
      obtain rfl := eq_append_of_readWord h
      exact ⟨a, ha, by rw [List.append_assoc]; rfl⟩
    · exact absurd h (by simp)
  · rintro ⟨a, ha, rfl⟩
    have hs : dropBlanks (a ++ "null".toList ++ r) = 'n' :: 'u' :: 'l' :: 'l' :: r := by
      rw [List.append_assoc]
      exact dropBlanks_append_cons ha (by decide)
    rw [readNull, hs]
    rfl

theorem readStreamMember_eq_ok_iff :
    readStreamMember s = .ok (stream, r) ↔
      ∃ m, MemberText ⟨stream.name.toList, "null".toList⟩ m ∧ s = m ++ '\x7d' :: r := by
  constructor
  · intro h
    obtain ⟨r₁, h₁, h⟩ := bind_eq_ok.1 h
    obtain ⟨⟨_, r₂⟩, h₂, h⟩ := bind_eq_ok.1 h
    obtain ⟨r₃, h₃, h⟩ := bind_eq_ok.1 h
    obtain ⟨r₄, h₄, h⟩ := bind_eq_ok.1 h
    obtain ⟨r₅, h₅, h⟩ := bind_eq_ok.1 h
    obtain ⟨rfl, rfl⟩ := Prod.mk.inj (Except.ok.inj h)
    obtain ⟨a, ha, rfl⟩ := (readWord_dropBlanks_eq_ok_iff (by decide)).1 h₁
    obtain ⟨q, hq, rfl⟩ := readStreamName_eq_ok_iff.1 h₂
    obtain ⟨t, ht, rfl⟩ := readColon_eq_ok_iff.1 h₃
    obtain ⟨u, hu, rfl⟩ := readNull_eq_ok_iff.1 h₄
    obtain ⟨w, hw, rfl⟩ := (readWord_dropBlanks_eq_ok_iff (by decide)).1 h₅
    exact ⟨_, .intro ha hq ht hu (.scalar .null) hw, by simp⟩
  · rintro ⟨m, hm, rfl⟩
    cases hm with
    | @intro _ q _ a t u w ha hq ht hu _ hw =>
      refine bind_eq_ok.2 ⟨q ++ '"' :: t ++ ':' :: u ++ "null".toList ++ w ++ '\x7d' :: r, ?_, bind_eq_ok.2
        ⟨(stream, t ++ ':' :: u ++ "null".toList ++ w ++ '\x7d' :: r), ?_, bind_eq_ok.2
        ⟨u ++ "null".toList ++ w ++ '\x7d' :: r, ?_, bind_eq_ok.2 ⟨w ++ '\x7d' :: r, ?_, bind_eq_ok.2 ⟨r, ?_, rfl⟩⟩⟩⟩⟩
      · exact (readWord_dropBlanks_eq_ok_iff (by decide)).2 ⟨a, ha, by simp⟩
      · exact readStreamName_eq_ok_iff.2 ⟨q, hq, by simp⟩
      · exact readColon_eq_ok_iff.2 ⟨t, ht, by simp⟩
      · exact readNull_eq_ok_iff.2 ⟨u, hu, by simp⟩
      · exact (readWord_dropBlanks_eq_ok_iff (by decide)).2 ⟨w, hw, by simp⟩

private theorem objectText_singleton_iff {m : Member} :
    ObjectText [m] v ↔ ∃ s, MemberText m s ∧ v = '\x7b' :: s ++ ['\x7d'] := by
  constructor
  · rintro (_ | ⟨_ | ⟨_, ⟨⟩⟩⟩)
    exact ⟨_, ‹_›, rfl⟩
  · rintro ⟨s, hs, rfl⟩
    exact .items (.last hs)

theorem readStream_eq_ok_iff :
    readStream s = .ok (stream, r) ↔ ∃ a v, Blanks a ∧ StreamText v stream ∧ s = a ++ v ++ r := by
  constructor
  · intro h
    unfold readStream at h
    split at h
    · exact absurd h (by simp)
    · rename_i t ht
      obtain ⟨a, ha, rfl⟩ := exists_of_dropBlanks_eq ht
      obtain ⟨q, hq, rfl⟩ := readStreamName_eq_ok_iff.1 h
      exact ⟨a, _, ha, .name hq, by simp⟩
    · rename_i t ht
      obtain ⟨a, ha, rfl⟩ := exists_of_dropBlanks_eq ht
      obtain ⟨m, hm, rfl⟩ := readStreamMember_eq_ok_iff.1 h
      exact ⟨a, _, ha, .object (objectText_singleton_iff.2 ⟨m, hm, rfl⟩), by simp⟩
    · exact absurd h (by simp)
  · rintro ⟨a, v, ha, hv, rfl⟩
    cases hv with
    | @name q _ h =>
      have hs : dropBlanks (a ++ ('"' :: q ++ ['"']) ++ r) = '"' :: (q ++ '"' :: r) := by
        rw [List.append_assoc]
        simpa using dropBlanks_append_cons (r := q ++ '"' :: r) ha (by decide)
      rw [readStream, hs]
      exact readStreamName_eq_ok_iff.2 ⟨q, h, rfl⟩
    | object h =>
      obtain ⟨m, hm, rfl⟩ := objectText_singleton_iff.1 h
      have hs : dropBlanks (a ++ ('\x7b' :: m ++ ['\x7d']) ++ r) = '\x7b' :: (m ++ '\x7d' :: r) := by
        rw [List.append_assoc]
        simpa using dropBlanks_append_cons (r := m ++ '\x7d' :: r) ha (by decide)
      rw [readStream, hs]
      exact readStreamMember_eq_ok_iff.2 ⟨m, hm, rfl⟩

theorem StreamText.valueText (h : StreamText v stream) : ValueText v := by
  cases h with
  | name h => exact .scalar (.string h.bodyText)
  | object h => exact h.valueText

/-! ### Flags -/

theorem readFlag_eq_ok_iff :
    readFlag s = .ok (b, r) ↔ ∃ a v, Blanks a ∧ FlagText v b ∧ s = a ++ v ++ r := by
  constructor
  · intro h
    unfold readFlag at h
    split at h
    · rename_i t ht
      obtain ⟨a, ha, rfl⟩ := exists_of_dropBlanks_eq ht
      obtain ⟨r', hr, h⟩ := map_eq_ok.1 h
      obtain ⟨rfl, rfl⟩ := Prod.mk.inj h
      obtain rfl := eq_append_of_readWord hr
      exact ⟨a, _, ha, .intro true, by rw [List.append_assoc]; rfl⟩
    · rename_i t ht
      obtain ⟨a, ha, rfl⟩ := exists_of_dropBlanks_eq ht
      obtain ⟨r', hr, h⟩ := map_eq_ok.1 h
      obtain ⟨rfl, rfl⟩ := Prod.mk.inj h
      obtain rfl := eq_append_of_readWord hr
      exact ⟨a, _, ha, .intro false, by rw [List.append_assoc]; rfl⟩
    · exact absurd h (by simp)
  · rintro ⟨a, v, ha, ⟨b⟩, rfl⟩
    rw [List.append_assoc]
    cases b with
    | false =>
      have hs : dropBlanks (a ++ ("false".toList ++ r)) = 'f' :: 'a' :: 'l' :: 's' :: 'e' :: r :=
        dropBlanks_append_cons ha (by decide)
      rw [readFlag, show booleanText false = "false" from rfl, hs]
      rfl
    | true =>
      have hs : dropBlanks (a ++ ("true".toList ++ r)) = 't' :: 'r' :: 'u' :: 'e' :: r :=
        dropBlanks_append_cons ha (by decide)
      rw [readFlag, show booleanText true = "true" from rfl, hs]
      rfl

theorem FlagText.valueText (h : FlagText v b) : ValueText v := by
  cases h
  exact .scalar (.boolean b)

end Config

end CrossMesh
