import CrossMesh.Proofs.Config.Values

/-!
# Reading the members of settings

An object of settings is read member by member, and what was given so far is kept; `Adds` is what one member does to
that.  Whether a run of members is taken, and what it gives, depends on how often the known keys occur, not on where
(`addsAll_iff`).  `readMembers_eq_ok_iff` says which objects are read.
-/

namespace CrossMesh

namespace Config

open Json

variable {first : Bool} {g g' : Given} {m : Member} {ms : List Member} {s r t p a v : List Char}

/-! ### What members settle -/

/-- At most one member has the key, and that one gives the value. -/
inductive Settles {α : Type} (ms : List Member) (key : String) (Value : List Char → α → Prop) : Option α → Prop
  | missing (h : ∀ m ∈ ms, m.key ≠ key.toList) : Settles ms key Value none
  | given {m : Member} {a : α} (hm : ms.filter (·.key = key.toList) = [m]) (ha : Value m.value a) :
      Settles ms key Value (some a)

section Settles

variable {α : Type} {key : String} {Value : List Char → α → Prop} {x : Option α}

theorem settles_none_iff : Settles ms key Value none ↔ ∀ m ∈ ms, m.key ≠ key.toList :=
  ⟨fun | .missing h => h, .missing⟩

/-- A member with another key settles nothing. -/
theorem settles_concat_of_ne (hm : m.key ≠ key.toList) :
    Settles (ms ++ [m]) key Value x ↔ Settles ms key Value x := by
  have hfilter : (ms ++ [m]).filter (·.key = key.toList) = ms.filter (·.key = key.toList) := by
    simp [hm]
  constructor
  · rintro (h | ⟨hn, ha⟩)
    · exact .missing fun n hn => h n (List.mem_append_left _ hn)
    · exact .given (hfilter ▸ hn) ha
  · rintro (h | ⟨hn, ha⟩)
    · refine .missing fun n hn => ?_
      rcases List.mem_append.1 hn with hn | hn
      · exact h n hn
      · rwa [List.mem_singleton.1 hn]
    · exact .given (hfilter.trans hn) ha

/-- A member with the key settles the value if it is the first one. -/
theorem settles_concat_of_eq (hm : m.key = key.toList) :
    Settles (ms ++ [m]) key Value x ↔ Settles ms key Value none ∧ ∃ a, Value m.value a ∧ x = some a := by
  have hfilter : (ms ++ [m]).filter (·.key = key.toList) = ms.filter (·.key = key.toList) ++ [m] := by
    simp [hm]
  rw [settles_none_iff]
  constructor
  · rintro (h | ⟨hn, ha⟩)
    · exact absurd hm (h m (by simp))
    · rw [hfilter, List.append_eq_singleton_iff] at hn
      rcases hn with ⟨hms, hn⟩ | ⟨-, hn⟩
      · obtain rfl := List.singleton_injective hn
        exact ⟨by simpa using hms, _, ha, rfl⟩
      · exact absurd hn (by simp)
  · rintro ⟨h, a, ha, rfl⟩
    refine .given (hfilter.trans ?_) ha
    rw [List.filter_eq_nil_iff.2 (by simpa using h), List.nil_append]

end Settles

/-! ### What members add -/

/-- What a member adds to the settings given before it. -/
inductive Adds : Given → Member → Given → Prop
  | stream {eager : Option Bool} {v : List Char} {stream : StreamKind} (hv : StreamText v stream) :
      Adds ⟨none, eager⟩ ⟨streamKey.toList, v⟩ ⟨some stream, eager⟩
  | eagerReverse {stream : Option StreamKind} {v : List Char} {eager : Bool} (hv : FlagText v eager) :
      Adds ⟨stream, none⟩ ⟨eagerKey.toList, v⟩ ⟨stream, some eager⟩
  | other {g : Given} {m : Member} (hstream : m.key ≠ streamKey.toList) (heager : m.key ≠ eagerKey.toList) :
      Adds g m g

/-- What a run of members adds. -/
inductive AddsAll : Given → List Member → Given → Prop
  | nil {g : Given} : AddsAll g [] g
  | cons {g g₁ g' : Given} {m : Member} {ms : List Member} (h : Adds g m g₁) (hs : AddsAll g₁ ms g') :
      AddsAll g (m :: ms) g'

theorem addsAll_concat_iff : AddsAll g (ms ++ [m]) g' ↔ ∃ g₁, AddsAll g ms g₁ ∧ Adds g₁ m g' := by
  constructor
  · intro h
    induction ms generalizing g with
    | nil =>
      cases h with
      | cons h hs =>
        cases hs
        exact ⟨g, .nil, h⟩
    | cons n ms ih =>
      cases h with
      | cons h hs =>
        obtain ⟨g₁, hs, hm⟩ := ih hs
        exact ⟨g₁, .cons h hs, hm⟩
  · rintro ⟨g₁, hs, hm⟩
    induction hs with
    | nil => exact .cons hm .nil
    | cons h _ ih => exact .cons h (ih hm)

private theorem eagerKey_ne : eagerKey.toList ≠ streamKey.toList := by decide

theorem addsAll_iff : AddsAll {} ms g ↔
    Settles ms streamKey StreamText g.stream ∧ Settles ms eagerKey FlagText g.eagerReverse := by
  -- from the last member, so that what is given before it is what the members in front of it settle
  induction ms using List.reverseRecOn generalizing g with
  | nil =>
    constructor
    · rintro ⟨⟩
      exact ⟨.missing (by simp), .missing (by simp)⟩
    · rintro ⟨hstream, heager⟩
      obtain ⟨_, _⟩ := g
      cases hstream with
      | given hm => exact absurd hm (by simp)
      | missing =>
        cases heager with
        | given hm => exact absurd hm (by simp)
        | missing => exact .nil
  | append_singleton ms m ih =>
    rw [addsAll_concat_iff]
    constructor
    · rintro ⟨g₁, hs, hm⟩
      obtain ⟨hstream, heager⟩ := ih.1 hs
      cases hm with
      | stream hv =>
        rw [settles_concat_of_eq rfl, settles_concat_of_ne eagerKey_ne.symm]
        exact ⟨⟨hstream, _, hv, rfl⟩, heager⟩
      | eagerReverse hv =>
        rw [settles_concat_of_ne eagerKey_ne, settles_concat_of_eq rfl]
        exact ⟨hstream, heager, _, hv, rfl⟩
      | other hstream' heager' =>
        rw [settles_concat_of_ne hstream', settles_concat_of_ne heager']
        exact ⟨hstream, heager⟩
    · obtain ⟨stream, eager⟩ := g
      obtain ⟨key, v⟩ := m
      rintro ⟨hstream, heager⟩
      by_cases hs : key = streamKey.toList
      · subst hs
        obtain ⟨hnone, k, hv, rfl⟩ := (settles_concat_of_eq rfl).1 hstream
        exact ⟨⟨none, eager⟩, ih.2 ⟨hnone, (settles_concat_of_ne eagerKey_ne.symm).1 heager⟩, .stream hv⟩
      · rw [settles_concat_of_ne hs] at hstream
        by_cases he : key = eagerKey.toList
        · subst he
          obtain ⟨hnone, b, hv, rfl⟩ := (settles_concat_of_eq rfl).1 heager
          exact ⟨⟨stream, none⟩, ih.2 ⟨hstream, hnone⟩, .eagerReverse hv⟩
        · rw [settles_concat_of_ne he] at heager
          exact ⟨_, ih.2 ⟨hstream, heager⟩, .other hs he⟩

/-! ### Reading members -/

theorem exists_of_readMember {key : String} (h : readMember g key s = .ok (g', r)) :
    ∃ a t v, Blanks a ∧ Blanks t ∧ ValueText v ∧ Adds g ⟨key.toList, v⟩ g' ∧ s = a ++ ':' :: t ++ v ++ r := by
  unfold readMember at h
  split at h
  · rename_i hkey
    subst hkey
    split at h
    · exact absurd h (by simp)
    · rename_i hnone
      obtain ⟨r₁, h₁, h⟩ := bind_eq_ok.1 h
      obtain ⟨⟨stream, r₂⟩, h₂, h⟩ := bind_eq_ok.1 h
      obtain ⟨rfl, rfl⟩ := Prod.mk.inj (Except.ok.inj h)
      obtain ⟨a, ha, rfl⟩ := readColon_eq_ok_iff.1 h₁
      obtain ⟨t, v, ht, hv, rfl⟩ := readStream_eq_ok_iff.1 h₂
      obtain ⟨_, eager⟩ := g
      obtain rfl := Option.not_isSome_iff_eq_none.1 hnone
      exact ⟨a, t, v, ha, ht, hv.valueText, .stream hv, by simp⟩
  · rename_i hstream
    split at h
    · rename_i hkey
      subst hkey
      split at h
      · exact absurd h (by simp)
      · rename_i hnone
        obtain ⟨r₁, h₁, h⟩ := bind_eq_ok.1 h
        obtain ⟨⟨eager, r₂⟩, h₂, h⟩ := bind_eq_ok.1 h
        obtain ⟨rfl, rfl⟩ := Prod.mk.inj (Except.ok.inj h)
        obtain ⟨a, ha, rfl⟩ := readColon_eq_ok_iff.1 h₁
        obtain ⟨t, v, ht, hv, rfl⟩ := readFlag_eq_ok_iff.1 h₂
        obtain ⟨stream, _⟩ := g
        obtain rfl := Option.not_isSome_iff_eq_none.1 hnone
        exact ⟨a, t, v, ha, ht, hv.valueText, .eagerReverse hv, by simp⟩
    · rename_i heager
      obtain ⟨r₁, h₁, h⟩ := bind_eq_ok.1 h
      obtain ⟨r₂, h₂, h⟩ := bind_eq_ok.1 h
      obtain ⟨rfl, rfl⟩ := Prod.mk.inj (Except.ok.inj h)
      obtain ⟨a, ha, rfl⟩ := readColon_eq_ok_iff.1 h₁
      obtain ⟨t, v, ht, hv, rfl⟩ := exists_of_skipValue h₂
      refine ⟨a, t, v, ha, ht, hv, .other ?_ ?_, by simp⟩
      · exact fun hkey => hstream (String.toList_inj.1 hkey)
      · exact fun hkey => heager (String.toList_inj.1 hkey)

theorem readMember_append {key : String} (ha : Blanks a) (ht : Blanks t) (hv : ValueText v)
    (hadds : Adds g ⟨key.toList, v⟩ g') (hr : Delimited r) :
    readMember g key (a ++ ':' :: t ++ v ++ r) = .ok (g', r) := by
  have hcolon : readColon (a ++ ':' :: t ++ v ++ r) = .ok (t ++ v ++ r) :=
    readColon_eq_ok_iff.2 ⟨a, ha, by simp⟩
  generalize hm : (⟨key.toList, v⟩ : Member) = m at hadds
  cases hadds with
  | @stream eager _ stream hstream =>
    obtain ⟨hkey, rfl⟩ := Member.mk.inj hm
    obtain rfl := String.toList_inj.1 hkey
    have hvalue : readStream (t ++ v ++ r) = .ok (stream, r) := readStream_eq_ok_iff.2 ⟨t, v, ht, hstream, rfl⟩
    simp only [readMember, if_true, Option.isSome_none, Bool.false_eq_true, if_false]
    exact bind_eq_ok.2 ⟨_, hcolon, bind_eq_ok.2 ⟨_, hvalue, rfl⟩⟩
  | @eagerReverse stream _ eager heager =>
    obtain ⟨hkey, rfl⟩ := Member.mk.inj hm
    obtain rfl := String.toList_inj.1 hkey
    have hvalue : readFlag (t ++ v ++ r) = .ok (eager, r) := readFlag_eq_ok_iff.2 ⟨t, v, ht, heager, rfl⟩
    have hne : eagerKey ≠ streamKey := by decide
    simp only [readMember, if_neg hne, if_true, Option.isSome_none, Bool.false_eq_true, if_false]
    exact bind_eq_ok.2 ⟨_, hcolon, bind_eq_ok.2 ⟨_, hvalue, rfl⟩⟩
  | other hstream heager =>
    subst hm
    rw [readMember, if_neg fun h => hstream (by rw [h]), if_neg fun h => heager (by rw [h])]
    exact bind_eq_ok.2 ⟨_, hcolon, bind_eq_ok.2 ⟨_, skipValue_append ht hv hr, rfl⟩⟩

/-- What stands in front of an item: a comma behind blanks, unless it is the first. -/
inductive SeparatorText : Bool → List Char → Prop
  | first : SeparatorText true []
  | later {s : List Char} (h : Blanks s) : SeparatorText false (s ++ [','])

theorem readSeparator_eq_ok_iff : readSeparator first s = .ok r ↔ ∃ p, SeparatorText first p ∧ s = p ++ r := by
  cases first with
  | true =>
    constructor
    · intro h
      obtain rfl := Except.ok.inj h
      exact ⟨[], .first, rfl⟩
    · rintro ⟨_, ⟨⟩, rfl⟩
      rfl
  | false =>
    refine readComma_eq_ok_iff.trans ⟨?_, ?_⟩
    · rintro ⟨a, ha, rfl⟩
      exact ⟨_, .later ha, by simp⟩
    · rintro ⟨p, hp, rfl⟩
      cases hp with
      | later ha => exact ⟨_, ha, by simp⟩

theorem exists_of_nextKey_none (h : nextKey first s = .ok (none, r)) : ∃ a, Blanks a ∧ s = a ++ '\x7d' :: r := by
  unfold nextKey at h
  split at h
  · rename_i hc
    obtain ⟨-, rfl⟩ := Prod.mk.inj (Except.ok.inj h)
    exact closing?_eq_some_iff.1 hc
  · obtain ⟨s₁, _, h⟩ := bind_eq_ok.1 h
    obtain ⟨s₂, _, h⟩ := bind_eq_ok.1 h
    obtain ⟨s₃, _, h⟩ := bind_eq_ok.1 h
    exact absurd (Prod.mk.inj (Except.ok.inj h)).1 (by simp)

theorem nextKey_closer (ha : Blanks a) : nextKey first (a ++ '\x7d' :: r) = .ok (none, r) := by
  have hc : closing? .curly (a ++ '\x7d' :: r) = some r := closing?_eq_some_iff.2 ⟨a, ha, rfl⟩
  rw [nextKey, hc]
  rfl

theorem exists_of_nextKey_some {key : String} (h : nextKey first s = .ok (some key, r)) :
    ∃ p a q, SeparatorText first p ∧ Blanks a ∧ SpellsText q key.toList ∧ s = p ++ a ++ '"' :: q ++ '"' :: r := by
  unfold nextKey at h
  split at h
  · exact absurd (Prod.mk.inj (Except.ok.inj h)).1 (by simp)
  · obtain ⟨s₁, h₁, h⟩ := bind_eq_ok.1 h
    obtain ⟨s₂, h₂, h⟩ := bind_eq_ok.1 h
    obtain ⟨⟨name, s₃⟩, h₃, h⟩ := bind_eq_ok.1 h
    obtain ⟨hkey, rfl⟩ := Prod.mk.inj (Except.ok.inj h)
    obtain rfl := Option.some.inj hkey
    obtain ⟨p, hp, rfl⟩ := readSeparator_eq_ok_iff.1 h₁
    obtain ⟨a, ha, rfl⟩ := (readWord_dropBlanks_eq_ok_iff (by decide)).1 h₂
    obtain ⟨q, hq, rfl⟩ := readText_eq_ok_iff.1 h₃
    exact ⟨p, a, q, hp, ha, by rwa [String.toList_ofList], by simp⟩

theorem nextKey_append {key q : List Char} (hp : SeparatorText first p) (ha : Blanks a) (hq : SpellsText q key) :
    nextKey first (p ++ a ++ '"' :: q ++ '"' :: r) = .ok (some (String.ofList key), r) := by
  have hc : closing? .curly (p ++ a ++ '"' :: q ++ '"' :: r) = none := by
    cases hp with
    | first => simpa using closing?_append_cons (b := .curly) (r := q ++ '"' :: r) ha (by decide) (by decide)
    | later hs =>
      simpa using closing?_append_cons (b := .curly) (r := a ++ '"' :: (q ++ '"' :: r)) hs (by decide) (by decide)
  have hseparator : readSeparator first (p ++ a ++ '"' :: q ++ '"' :: r) = .ok (a ++ '"' :: q ++ '"' :: r) :=
    readSeparator_eq_ok_iff.2 ⟨p, hp, by simp⟩
  have hquote : readWord ['"'] (dropBlanks (a ++ '"' :: q ++ '"' :: r)) = .ok (q ++ '"' :: r) :=
    (readWord_dropBlanks_eq_ok_iff (by decide)).2 ⟨a, ha, by simp⟩
  rw [nextKey, hc]
  exact bind_eq_ok.2 ⟨_, hseparator, bind_eq_ok.2 ⟨_, hquote, bind_eq_ok.2
    ⟨_, readText_eq_ok_iff.2 ⟨q, hq, rfl⟩, rfl⟩⟩⟩

/-! ### Reading objects -/

/-- What stands between the start of an object, or a member of it, and its end. -/
inductive MembersText (first : Bool) : List Member → List Char → Prop
  | none {s : List Char} (h : Blanks s) : MembersText first [] s
  | some {ms : List Member} {p s : List Char} (hp : SeparatorText first p) (h : CommaText MemberText ms s) :
      MembersText first ms (p ++ s)

/-- The blanks behind the value of a member are read with what stands behind the member. -/
theorem commaText_cons_iff {key : List Char} :
    CommaText MemberText (⟨key, v⟩ :: ms) s ↔ ∃ a q t u w, Blanks a ∧ SpellsText q key ∧ Blanks t ∧ Blanks u ∧
      ValueText v ∧ MembersText false ms w ∧ s = a ++ '"' :: q ++ '"' :: t ++ ':' :: u ++ v ++ w := by
  constructor
  · intro h
    cases h with
    | last h =>
      cases h with
      | intro ha hq ht hu hv hw => exact ⟨_, _, _, _, _, ha, hq, ht, hu, hv, .none hw, by simp⟩
    | cons h hs =>
      cases h with
      | intro ha hq ht hu hv hw => exact ⟨_, _, _, _, _, ha, hq, ht, hu, hv, .some (.later hw) hs, by simp⟩
  · rintro ⟨a, q, t, u, w, ha, hq, ht, hu, hv, hw, rfl⟩
    cases hw with
    | none hw => exact .last (.intro ha hq ht hu hv hw)
    | some hp hs =>
      cases hp with
      | later hw => simpa using CommaText.cons (MemberText.intro ha hq ht hu hv hw) hs

theorem exists_of_readMembers (h : readMembers first g s = .ok (g', r)) :
    ∃ ms t, MembersText first ms t ∧ AddsAll g ms g' ∧ s = t ++ '\x7d' :: r := by
  fun_induction readMembers first g s with
  | case1 => exact absurd h (by simp)
  | case2 first g s r₁ hkey =>
    obtain ⟨rfl, rfl⟩ := Prod.mk.inj (Except.ok.inj h)
    obtain ⟨a, ha, rfl⟩ := exists_of_nextKey_none hkey
    exact ⟨[], a, .none ha, .nil, rfl⟩
  | case3 => exact absurd h (by simp)
  | case4 first g s key r₁ hkey g₁ r₂ hmember ih =>
    obtain ⟨p, a, q, hp, ha, hq, rfl⟩ := exists_of_nextKey_some hkey
    obtain ⟨t, u, v, ht, hu, hv, hadds, rfl⟩ := exists_of_readMember hmember
    obtain ⟨ms, w, hw, hall, rfl⟩ := ih h
    have hms := commaText_cons_iff.2 ⟨a, q, t, u, w, ha, hq, ht, hu, hv, hw, rfl⟩
    exact ⟨_, _, .some hp hms, .cons hadds hall, by simp⟩

theorem readMembers_eq (first : Bool) (g : Given) (s : List Char) :
    readMembers first g s = nextKey first s >>= fun x => match x with
      | (none, r) => .ok (g, r)
      | (some key, r) => readMember g key r >>= fun y => readMembers false y.1 y.2 := by
  rw [readMembers]
  split
  · simp_all [bind, Except.bind]
  · simp_all [bind, Except.bind]
  · split <;> simp_all [bind, Except.bind]

private theorem MembersText.delimited (h : MembersText false ms t) : Delimited (t ++ '\x7d' :: r) := by
  cases h with
  | none h => exact (delimited_closer .curly r).blanks_append h
  | some hp =>
    cases hp with
    | later h => simpa using (delimited_comma _).blanks_append h

theorem readMembers_append (h : MembersText first ms t) (hadds : AddsAll g ms g') :
    readMembers first g (t ++ '\x7d' :: r) = .ok (g', r) := by
  induction hadds generalizing first t with
  | nil =>
    cases h with
    | none h =>
      rw [readMembers_eq, nextKey_closer h]
      rfl
    | some _ h => cases h
  | @cons g g₁ g' m ms hadds _ ih =>
    cases h with
    | @some _ p _ hp h =>
      obtain ⟨a, q, t, u, w, ha, hq, ht, hu, hv, hw, rfl⟩ := commaText_cons_iff.1 h
      have hkey : nextKey first (p ++ (a ++ '"' :: q ++ '"' :: t ++ ':' :: u ++ m.value ++ w) ++ '\x7d' :: r) =
          .ok (some (String.ofList m.key), t ++ ':' :: u ++ m.value ++ (w ++ '\x7d' :: r)) := by
        simpa using nextKey_append (r := t ++ ':' :: u ++ m.value ++ (w ++ '\x7d' :: r)) hp ha hq
      have hmember : readMember g (String.ofList m.key) (t ++ ':' :: u ++ m.value ++ (w ++ '\x7d' :: r)) =
          .ok (g₁, w ++ '\x7d' :: r) :=
        readMember_append ht hu hv (by rwa [String.toList_ofList]) hw.delimited
      rw [readMembers_eq]
      exact bind_eq_ok.2 ⟨_, hkey, bind_eq_ok.2 ⟨_, hmember, ih hw⟩⟩

/-- An object is a curly bracket with members up to its end. -/
theorem objectText_iff : ObjectText ms s ↔ ∃ t, MembersText true ms t ∧ s = '\x7b' :: t ++ ['\x7d'] := by
  constructor
  · intro h
    cases h with
    | empty h => exact ⟨_, .none h, rfl⟩
    | items h => exact ⟨_, .some .first h, rfl⟩
  · rintro ⟨t, ht, rfl⟩
    cases ht with
    | none h => exact .empty h
    | some hp h =>
      cases hp with
      | first => exact .items h

theorem readMembers_eq_ok_iff : readMembers true {} s = .ok (g, r) ↔
    ∃ ms d, ObjectText ms d ∧ AddsAll {} ms g ∧ '\x7b' :: s = d ++ r := by
  constructor
  · intro h
    obtain ⟨ms, t, ht, hadds, rfl⟩ := exists_of_readMembers h
    exact ⟨ms, _, objectText_iff.2 ⟨t, ht, rfl⟩, hadds, by simp⟩
  · rintro ⟨ms, d, hd, hadds, hs⟩
    obtain ⟨t, ht, rfl⟩ := objectText_iff.1 hd
    obtain rfl : s = t ++ '\x7d' :: r := by simpa using hs
    exact readMembers_append ht hadds

end Config

end CrossMesh
