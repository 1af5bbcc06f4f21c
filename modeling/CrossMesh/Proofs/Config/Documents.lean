import CrossMesh.Config.File
import CrossMesh.Proofs.Config.Members

/-!
# Which texts are settings

A text is read as settings exactly if it is a document between blanks, and what is read is what the document gives,
with the default of each setting that it does not give (`ofText_eq_ok_iff`).
-/

namespace CrossMesh

namespace Config

open Json

/-! ### Documents -/

/-- Values in a row and the settings that they give: the stream, and behind it the flag. -/
inductive Gives : List (List Char) → Option StreamKind → Option Bool → Prop
  | none : Gives [] none none
  | stream {v : List Char} {stream : StreamKind} (hv : StreamText v stream) : Gives [v] (some stream) none
  | both {v w : List Char} {stream : StreamKind} {eager : Bool} (hv : StreamText v stream) (hw : FlagText w eager) :
      Gives [v, w] (some stream) (some eager)

/-- A document and the settings that it gives: an object, in which other members may stand too, or an array. -/
inductive DocumentText : List Char → Option StreamKind → Option Bool → Prop
  | object {ms : List Member} {s : List Char} {stream : Option StreamKind} {eager : Option Bool} (hs : ObjectText ms s)
      (hstream : Settles ms streamKey StreamText stream) (heager : Settles ms eagerKey FlagText eager) :
      DocumentText s stream eager
  | array {vs : List (List Char)} {s : List Char} {stream : Option StreamKind} {eager : Option Bool}
      (hs : ArrayText vs s) (h : Gives vs stream eager) : DocumentText s stream eager

theorem DocumentText.valueText {s : List Char} {stream : Option StreamKind} {eager : Option Bool}
    (h : DocumentText s stream eager) : ValueText s := by
  cases h with
  | object hs => exact hs.valueText
  | array hs => exact hs.valueText

variable {first : Bool} {g g' : Given} {s r p a v : List Char}

/-! ### Reading arrays -/

private theorem exists_of_readSeparator_dropBlanks (h : readSeparator first (dropBlanks s) = .ok r) :
    ∃ p a, SeparatorText first p ∧ Blanks a ∧ s = p ++ a ++ dropBlanks r := by
  cases first with
  | true =>
    obtain rfl := Except.ok.inj h
    obtain ⟨a, ha, hs⟩ := exists_blanks s
    exact ⟨[], a, .first, ha, by rw [dropBlanks_dropBlanks]; exact hs⟩
  | false =>
    have hcomma : readComma s = .ok r := by
      simpa [readSeparator, readComma] using h
    obtain ⟨b, hb, rfl⟩ := readComma_eq_ok_iff.1 hcomma
    obtain ⟨a, ha, hr⟩ := exists_blanks r
    refine ⟨_, a, .later hb, ha, ?_⟩
    conv_lhs => rw [hr]
    simp

theorem exists_of_nextElement_some (h : nextElement first s = .ok (some r)) :
    ∃ p a, SeparatorText first p ∧ Blanks a ∧ s = p ++ a ++ r := by
  unfold nextElement at h
  split at h
  · exact absurd h (by simp)
  · exact absurd (Except.ok.inj h) (by simp)
  · obtain ⟨s₁, h₁, h⟩ := bind_eq_ok.1 h
    split at h
    · exact absurd h (by simp)
    · exact absurd h (by simp)
    · obtain rfl := Option.some.inj (Except.ok.inj h)
      exact exists_of_readSeparator_dropBlanks h₁

theorem nextElement_closer (ha : Blanks a) : nextElement first (a ++ ']' :: r) = .ok none := by
  rw [nextElement, dropBlanks_append_cons ha (by decide)]
  rfl

theorem nextElement_append (hp : SeparatorText first p) (ha : Blanks a) (hv : ValueText v) :
    nextElement first (p ++ a ++ v ++ r) = .ok (some (v ++ r)) := by
  obtain ⟨c, t, rfl, hblank, hmarks⟩ := hv.exists_head
  have hc : c ≠ ']' := fun h => hmarks (by simp [h])
  have hs : ∃ d u s₁, dropBlanks (p ++ a ++ (c :: t) ++ r) = d :: u ∧ d ≠ ']' ∧
      readSeparator first (d :: u) = .ok s₁ ∧ dropBlanks s₁ = c :: (t ++ r) := by
    cases hp with
    | first =>
      refine ⟨c, t ++ r, c :: (t ++ r), ?_, hc, rfl, dropBlanks_cons hblank⟩
      simpa using dropBlanks_append_cons ha hblank
    | later hb =>
      refine ⟨',', a ++ c :: (t ++ r), a ++ c :: (t ++ r), ?_, by decide, rfl, dropBlanks_append_cons ha hblank⟩
      simpa using dropBlanks_append_cons hb (by decide)
  obtain ⟨d, u, s₁, hd, hne, hseparator, hs₁⟩ := hs
  unfold nextElement
  split
  · simp_all
  · simp_all
  · rw [hd]
    refine bind_eq_ok.2 ⟨s₁, hseparator, ?_⟩
    rw [hs₁]
    split
    · simp_all
    · simp_all
    · rfl

theorem readArrayEnd_eq_ok_iff : readArrayEnd g s = .ok (g', r) ↔ g' = g ∧ ∃ a, Blanks a ∧ s = a ++ ']' :: r := by
  constructor
  · intro h
    obtain ⟨s₁, h₁, h⟩ := bind_eq_ok.1 h
    obtain ⟨rfl, rfl⟩ := Prod.mk.inj (Except.ok.inj h)
    exact ⟨rfl, (readWord_dropBlanks_eq_ok_iff (by decide)).1 h₁⟩
  · rintro ⟨rfl, h⟩
    exact bind_eq_ok.2 ⟨r, (readWord_dropBlanks_eq_ok_iff (by decide)).2 h, rfl⟩

private theorem arrayText_nil_iff : ArrayText [] s ↔ ∃ a, Blanks a ∧ s = '[' :: a ++ [']'] := by
  constructor
  · rintro (h | ⟨⟨⟩⟩)
    exact ⟨_, h, rfl⟩
  · rintro ⟨a, ha, rfl⟩
    exact .empty ha

private theorem arrayText_singleton_iff :
    ArrayText [v] s ↔ ∃ a b, Blanks a ∧ ValueText v ∧ Blanks b ∧ s = '[' :: a ++ v ++ b ++ [']'] := by
  constructor
  · rintro (_ | ⟨⟨ha, hv, hb⟩ | ⟨_, ⟨⟩⟩⟩)
    exact ⟨_, _, ha, hv, hb, by simp [Bracket.opener, Bracket.closer]⟩
  · rintro ⟨a, b, ha, hv, hb, rfl⟩
    have h := CommaText.last (ElementText.intro ha hv hb)
    simpa [ArrayText, Bracket.opener, Bracket.closer] using BracketText.items (b := .square) h

private theorem arrayText_pair_iff {w : List Char} :
    ArrayText [v, w] s ↔ ∃ a b c e, Blanks a ∧ ValueText v ∧ Blanks b ∧ Blanks c ∧ ValueText w ∧ Blanks e ∧
      s = '[' :: a ++ v ++ b ++ ',' :: c ++ w ++ e ++ [']'] := by
  constructor
  · rintro (_ | ⟨_ | ⟨⟨ha, hv, hb⟩, ⟨hc, hw, he⟩ | ⟨_, ⟨⟩⟩⟩⟩)
    exact ⟨_, _, _, _, ha, hv, hb, hc, hw, he, by simp [Bracket.opener, Bracket.closer]⟩
  · rintro ⟨a, b, c, e, ha, hv, hb, hc, hw, he, rfl⟩
    have h := CommaText.cons (ElementText.intro ha hv hb) (.last (ElementText.intro hc hw he))
    simpa [ArrayText, Bracket.opener, Bracket.closer] using BracketText.items (b := .square) h

private theorem exists_of_readElements (h : readElements s = .ok (g, r)) :
    ∃ vs d, ArrayText vs d ∧ Gives vs g.stream g.eagerReverse ∧ '[' :: s = d ++ r := by
  unfold readElements at h
  obtain ⟨x, hx, h⟩ := bind_eq_ok.1 h
  cases x with
  | none =>
    obtain ⟨rfl, a, ha, rfl⟩ := readArrayEnd_eq_ok_iff.1 h
    exact ⟨[], _, arrayText_nil_iff.2 ⟨a, ha, rfl⟩, .none, by simp⟩
  | some s₁ =>
    obtain ⟨_, a, ⟨⟩, ha, rfl⟩ := exists_of_nextElement_some hx
    obtain ⟨⟨stream, s₂⟩, hstream, hrest⟩ := bind_eq_ok.1 h
    obtain ⟨b, v, hb, hv, rfl⟩ := readStream_eq_ok_iff.1 hstream
    dsimp only at hrest
    obtain ⟨y, hy, hend⟩ := bind_eq_ok.1 hrest
    cases y with
    | none =>
      obtain ⟨rfl, c, hc, rfl⟩ := readArrayEnd_eq_ok_iff.1 hend
      have hd := arrayText_singleton_iff.2 ⟨a ++ b, c, ha.append hb, hv.valueText, hc, rfl⟩
      exact ⟨[v], _, hd, .stream hv, by simp⟩
    | some s₃ =>
      obtain ⟨p, e, hp, he, rfl⟩ := exists_of_nextElement_some hy
      obtain ⟨⟨eager, s₄⟩, heager, hlast⟩ := bind_eq_ok.1 hend
      obtain ⟨f, w, hf, hw, rfl⟩ := readFlag_eq_ok_iff.1 heager
      obtain ⟨rfl, k, hk, rfl⟩ := readArrayEnd_eq_ok_iff.1 hlast
      cases hp with
      | @later c hc =>
        have hd := arrayText_pair_iff.2
          ⟨a ++ b, c, e ++ f, k, ha.append hb, hv.valueText, hc, he.append hf, hw.valueText, hk, rfl⟩
        exact ⟨[v, w], _, hd, .both hv hw, by simp⟩

private theorem readElements_append {vs : List (List Char)} {d : List Char} (hd : ArrayText vs d)
    (h : Gives vs g.stream g.eagerReverse) (hs : '[' :: s = d ++ r) : readElements s = .ok (g, r) := by
  obtain ⟨stream, eager⟩ := g
  unfold readElements
  cases h with
  | none =>
    obtain ⟨a, ha, rfl⟩ := arrayText_nil_iff.1 hd
    obtain rfl : s = a ++ ']' :: r := by simpa using hs
    exact bind_eq_ok.2 ⟨_, nextElement_closer ha, readArrayEnd_eq_ok_iff.2 ⟨rfl, a, ha, rfl⟩⟩
  | @stream v stream hv =>
    obtain ⟨a, b, ha, hvalue, hb, rfl⟩ := arrayText_singleton_iff.1 hd
    obtain rfl : s = [] ++ a ++ v ++ (b ++ ']' :: r) := by simpa using hs
    have hstream : readStream (v ++ (b ++ ']' :: r)) = .ok (stream, b ++ ']' :: r) :=
      readStream_eq_ok_iff.2 ⟨[], v, blanks_nil, hv, rfl⟩
    exact bind_eq_ok.2 ⟨_, nextElement_append .first ha hvalue, bind_eq_ok.2 ⟨_, hstream,
      bind_eq_ok.2 ⟨_, nextElement_closer hb, readArrayEnd_eq_ok_iff.2 ⟨rfl, b, hb, rfl⟩⟩⟩⟩
  | @both v w stream eager hv hw =>
    obtain ⟨a, b, c, e, ha, hvalue, hb, hc, hflag, he, rfl⟩ := arrayText_pair_iff.1 hd
    obtain rfl : s = [] ++ a ++ v ++ (b ++ [','] ++ c ++ w ++ (e ++ ']' :: r)) := by simpa using hs
    have hstream : readStream (v ++ (b ++ [','] ++ c ++ w ++ (e ++ ']' :: r))) =
        .ok (stream, b ++ [','] ++ c ++ w ++ (e ++ ']' :: r)) :=
      readStream_eq_ok_iff.2 ⟨[], v, blanks_nil, hv, rfl⟩
    have heager : readFlag (w ++ (e ++ ']' :: r)) = .ok (eager, e ++ ']' :: r) :=
      readFlag_eq_ok_iff.2 ⟨[], w, blanks_nil, hw, rfl⟩
    exact bind_eq_ok.2 ⟨_, nextElement_append .first ha hvalue, bind_eq_ok.2 ⟨_, hstream, bind_eq_ok.2
      ⟨_, nextElement_append (.later hb) hc hflag, bind_eq_ok.2
      ⟨_, heager, readArrayEnd_eq_ok_iff.2 ⟨rfl, e, he, rfl⟩⟩⟩⟩⟩

theorem readElements_eq_ok_iff : readElements s = .ok (g, r) ↔
    ∃ vs d, ArrayText vs d ∧ Gives vs g.stream g.eagerReverse ∧ '[' :: s = d ++ r :=
  ⟨exists_of_readElements, fun ⟨_, _, hd, h, hs⟩ => readElements_append hd h hs⟩

/-! ### Reading documents -/

theorem readDocument_eq_ok_iff : readDocument s = .ok (g, r) ↔
    ∃ a d, Blanks a ∧ DocumentText d g.stream g.eagerReverse ∧ s = a ++ d ++ r := by
  constructor
  · intro h
    unfold readDocument at h
    split at h
    · rename_i t ht
      obtain ⟨a, ha, rfl⟩ := exists_of_dropBlanks_eq ht
      obtain ⟨vs, d, hd, hgives, ht⟩ := readElements_eq_ok_iff.1 h
      exact ⟨a, d, ha, .array hd hgives, by rw [ht, List.append_assoc]⟩
    · rename_i t ht
      obtain ⟨a, ha, rfl⟩ := exists_of_dropBlanks_eq ht
      obtain ⟨ms, d, hd, hadds, ht⟩ := readMembers_eq_ok_iff.1 h
      obtain ⟨hstream, heager⟩ := addsAll_iff.1 hadds
      exact ⟨a, d, ha, .object hd hstream heager, by rw [ht, List.append_assoc]⟩
    · exact absurd h (by simp)
  · rintro ⟨a, d, ha, hd, rfl⟩
    have hopener {b : Bracket} {t : List Char} (ht : d = b.opener :: t) :
        dropBlanks (a ++ d ++ r) = b.opener :: (t ++ r) := by
      rw [List.append_assoc, ht]
      exact dropBlanks_append_cons ha (by cases b <;> decide)
    cases hd with
    | @object ms _ _ _ hd hstream heager =>
      obtain ⟨t, ht⟩ := hd.exists_opener
      rw [readDocument, hopener ht]
      exact readMembers_eq_ok_iff.2 ⟨ms, d, hd, addsAll_iff.2 ⟨hstream, heager⟩, by rw [ht]; rfl⟩
    | @array vs _ _ _ hd hgives =>
      obtain ⟨t, ht⟩ := hd.exists_opener
      rw [readDocument, hopener ht]
      exact readElements_eq_ok_iff.2 ⟨vs, d, hd, hgives, by rw [ht]; rfl⟩

private theorem read_eq_ok_iff {text : String} {c : Config} : read text = .ok c ↔
    ∃ g r, readDocument text.toList = .ok (g, r) ∧ Blanks r ∧ c = g.config := by
  constructor
  · intro h
    obtain ⟨⟨g, r⟩, hg, h⟩ := bind_eq_ok.1 h
    dsimp only at h
    split at h
    · rename_i hr
      exact ⟨g, r, hg, dropBlanks_eq_nil_iff.1 hr, (Except.ok.inj h).symm⟩
    · exact absurd h (by simp)
  · rintro ⟨g, r, hg, hr, rfl⟩
    refine bind_eq_ok.2 ⟨_, hg, ?_⟩
    dsimp only
    rw [if_pos (dropBlanks_eq_nil_iff.2 hr)]
    rfl

/-- A text is read as settings if it is a document between blanks, and only then.  The settings are those that the
document gives; each of the others has its default. -/
theorem ofText_eq_ok_iff (text : String) (c : Config) :
    ofText text = .ok c ↔ ∃ a d b stream eager, Blanks a ∧ DocumentText d stream eager ∧ Blanks b ∧
      text.toList = a ++ d ++ b ∧ c = ⟨stream.getD .calculation, eager.getD true⟩ := by
  have hread : ofText text = .ok c ↔ read text = .ok c := by
    unfold ofText
    cases read text <;> simp [Except.mapError]
  rw [hread, read_eq_ok_iff]
  constructor
  · rintro ⟨g, b, hg, hb, rfl⟩
    obtain ⟨a, d, ha, hd, ht⟩ := readDocument_eq_ok_iff.1 hg
    exact ⟨a, d, b, g.stream, g.eagerReverse, ha, hd, hb, ht, rfl⟩
  · rintro ⟨a, d, b, stream, eager, ha, hd, hb, ht, rfl⟩
    exact ⟨⟨stream, eager⟩, b, readDocument_eq_ok_iff.2 ⟨a, d, ha, hd, ht⟩, hb, rfl⟩

end Config

end CrossMesh
