import CrossMesh.Json.Skip

/-!
# The grammar of JSON

Which texts are JSON, said of lists of characters and without a reader.  `ValueText` are the values: words, strings,
numbers, arrays and objects.  A string may be looked at in two ways: `BodyText` is the form it must have, in which the
halves of a surrogate pair may stand alone, and `SpellsText` says which characters it stands for.
-/

namespace CrossMesh

namespace Json

/-! ### Blanks -/

/-- Nothing but spaces, tabs and line ends. -/
def Blanks (s : List Char) : Prop := ∀ c ∈ s, c ∈ [' ', '\t', '\n', '\r']

/-! ### Strings -/

/-- The letters behind a backslash, each with the character it stands for. -/
def escapeLetters : List (Char × Char) :=
  [('"', '"'), ('\\', '\\'), ('/', '/'), ('b', '\x08'), ('f', '\x0c'), ('n', '\n'), ('r', '\r'), ('t', '\t')]

/-- The character is the hexadecimal digit of a number below 16, in either case. -/
def HexDigit (c : Char) (n : Nat) : Prop :=
  "0123456789abcdef".toList[n]? = some c ∨ "0123456789ABCDEF".toList[n]? = some c

/-- Four hexadecimal digits write a number. -/
inductive HexText : List Char → Nat → Prop
  | intro {a b c d : Char} {i j k l : Nat} (ha : HexDigit a i) (hb : HexDigit b j) (hc : HexDigit c k)
      (hd : HexDigit d l) : HexText [a, b, c, d] (i * 0x1000 + j * 0x100 + k * 0x10 + l)

/-- What may stand inside a string: a plain character, an escape letter, or a number of four digits. -/
inductive PieceText : List Char → Prop
  | plain {c : Char} (hlow : ' ' ≤ c) (hquote : c ≠ '"') (hescape : c ≠ '\\') : PieceText [c]
  | letter {l c : Char} (h : (l, c) ∈ escapeLetters) : PieceText ['\\', l]
  | number {digits : List Char} {n : Nat} (h : HexText digits n) : PieceText ('\\' :: 'u' :: digits)

/-- What stands between the quotes of a string. -/
inductive BodyText : List Char → Prop
  | nil : BodyText []
  | cons {p s : List Char} (hp : PieceText p) (hs : BodyText s) : BodyText (p ++ s)

/-- The text stands for one character inside a string.  Above `0xffff` the numbers of both halves are needed, as UTF-16
has them; a half is no character, so it spells none by itself. -/
inductive Spells : List Char → Char → Prop
  | plain {c : Char} (hlow : ' ' ≤ c) (hquote : c ≠ '"') (hescape : c ≠ '\\') : Spells [c] c
  | letter {l c : Char} (h : (l, c) ∈ escapeLetters) : Spells ['\\', l] c
  | number {digits : List Char} {c : Char} (h : HexText digits c.toNat) : Spells ('\\' :: 'u' :: digits) c
  | pair {high low : List Char} {c : Char} (hc : 0x10000 ≤ c.toNat)
      (hhigh : HexText high (0xd800 + (c.toNat - 0x10000) / 0x400))
      (hlow : HexText low (0xdc00 + (c.toNat - 0x10000) % 0x400)) :
      Spells ('\\' :: 'u' :: high ++ '\\' :: 'u' :: low) c

/-- What stands between the quotes of a string spells these characters. -/
inductive SpellsText : List Char → List Char → Prop
  | nil : SpellsText [] []
  | cons {p s t : List Char} {c : Char} (hp : Spells p c) (hs : SpellsText s t) : SpellsText (p ++ s) (c :: t)

/-! ### Numbers -/

/-- One digit or more. -/
def Digits (s : List Char) : Prop := s ≠ [] ∧ ∀ c ∈ s, c.isDigit

/-- The whole part of a number, in which only a zero alone starts with zero. -/
inductive WholeText : List Char → Prop
  | zero : WholeText ['0']
  | digits {c : Char} {s : List Char} (hne : c ≠ '0') (h : Digits (c :: s)) : WholeText (c :: s)

inductive FractionText : List Char → Prop
  | none : FractionText []
  | digits {s : List Char} (h : Digits s) : FractionText ('.' :: s)

inductive ExponentText : List Char → Prop
  | none : ExponentText []
  | digits {e : Char} {sign s : List Char} (he : e = 'e' ∨ e = 'E') (hsign : sign ∈ [[], ['+'], ['-']])
      (h : Digits s) : ExponentText (e :: sign ++ s)

/-- A number without a sign, of any size. -/
inductive UnsignedText : List Char → Prop
  | intro {whole fraction exponent : List Char} (hwhole : WholeText whole) (hfraction : FractionText fraction)
      (hexponent : ExponentText exponent) : UnsignedText (whole ++ fraction ++ exponent)

/-! ### Values -/

/-- A value without parts. -/
inductive ScalarText : List Char → Prop
  | null : ScalarText "null".toList
  | boolean (b : Bool) : ScalarText (booleanText b).toList
  | string {s : List Char} (h : BodyText s) : ScalarText ('"' :: s ++ ['"'])
  | positive {s : List Char} (h : UnsignedText s) : ScalarText s
  | negative {s : List Char} (h : UnsignedText s) : ScalarText ('-' :: s)

def Bracket.opener : Bracket → Char
  | square => '['
  | curly => '\x7b'

/-- What stands in front of the value of an item: nothing in an array, a key and its colon in an object. -/
inductive LabelText : Bracket → List Char → Prop
  | element : LabelText .square []
  | key {s q t : List Char} (hs : Blanks s) (hq : BodyText q) (ht : Blanks t) :
      LabelText .curly (s ++ '"' :: q ++ '"' :: t ++ [':'])

mutual

/-- A value: a scalar, or a bracket with items inside, or with none. -/
inductive ValueText : List Char → Prop
  | scalar {s : List Char} (h : ScalarText s) : ValueText s
  | empty (b : Bracket) {s : List Char} (h : Blanks s) : ValueText (b.opener :: s ++ [b.closer])
  | items {b : Bracket} {s : List Char} (h : ItemsText b s) : ValueText (b.opener :: s ++ [b.closer])

/-- One item or more, with commas between them and blanks around each value. -/
inductive ItemsText : Bracket → List Char → Prop
  | last {b : Bracket} {k s v t : List Char} (hk : LabelText b k) (hs : Blanks s) (hv : ValueText v) (ht : Blanks t) :
      ItemsText b (k ++ s ++ v ++ t)
  | cons {b : Bracket} {k s v t rest : List Char} (hk : LabelText b k) (hs : Blanks s) (hv : ValueText v)
      (ht : Blanks t) (hrest : ItemsText b rest) : ItemsText b (k ++ s ++ v ++ t ++ ',' :: rest)

end

/-! ### Parts of arrays and objects -/

/-- One item or more, with commas between them. -/
inductive CommaText {α : Type} (Item : α → List Char → Prop) : List α → List Char → Prop
  | last {x : α} {s : List Char} (h : Item x s) : CommaText Item [x] s
  | cons {x : α} {xs : List α} {s t : List Char} (h : Item x s) (hrest : CommaText Item xs t) :
      CommaText Item (x :: xs) (s ++ ',' :: t)

/-- A bracket with these items inside. -/
inductive BracketText {α : Type} (b : Bracket) (Item : α → List Char → Prop) : List α → List Char → Prop
  | empty {s : List Char} (h : Blanks s) : BracketText b Item [] (b.opener :: s ++ [b.closer])
  | items {xs : List α} {s : List Char} (h : CommaText Item xs s) :
      BracketText b Item xs (b.opener :: s ++ [b.closer])

theorem BracketText.exists_opener {α : Type} {b : Bracket} {Item : α → List Char → Prop} {xs : List α} {s : List Char}
    (h : BracketText b Item xs s) : ∃ t, s = b.opener :: t := by
  cases h with
  | empty => exact ⟨_, rfl⟩
  | items => exact ⟨_, rfl⟩

/-- A value as an element of an array. -/
inductive ElementText : List Char → List Char → Prop
  | intro {v s t : List Char} (hs : Blanks s) (hv : ValueText v) (ht : Blanks t) : ElementText v (s ++ v ++ t)

/-- An array of these values. -/
def ArrayText : List (List Char) → List Char → Prop := BracketText .square ElementText

/-- A member of an object: the characters of its key, and its value as it is written. -/
structure Member where
  key : List Char
  value : List Char

/-- A member as an item of an object. -/
inductive MemberText : Member → List Char → Prop
  | intro {key q v s t u w : List Char} (hs : Blanks s) (hq : SpellsText q key) (ht : Blanks t) (hu : Blanks u)
      (hv : ValueText v) (hw : Blanks w) : MemberText ⟨key, v⟩ (s ++ '"' :: q ++ '"' :: t ++ ':' :: u ++ v ++ w)

/-- An object of these members. -/
def ObjectText : List Member → List Char → Prop := BracketText .curly MemberText

/-! ### Arrays and objects are values -/

/-- What spells characters has the form of a string. -/
theorem SpellsText.bodyText {q t : List Char} (h : SpellsText q t) : BodyText q := by
  induction h with
  | nil => exact .nil
  | cons hp _ ih =>
    cases hp with
    | plain hlow hquote hescape => exact .cons (.plain hlow hquote hescape) ih
    | letter h => exact .cons (.letter h) ih
    | number h => exact .cons (.number h) ih
    | pair _ hhigh hlow =>
      rw [List.append_assoc]
      exact .cons (.number hhigh) (.cons (.number hlow) ih)

private theorem CommaText.itemsText {α : Type} {b : Bracket} {Item : α → List Char → Prop} {xs : List α} {s : List Char}
    (hitem : ∀ x s, Item x s → ∃ k a v t, LabelText b k ∧ Blanks a ∧ ValueText v ∧ Blanks t ∧ s = k ++ a ++ v ++ t)
    (h : CommaText Item xs s) : ItemsText b s := by
  induction h with
  | last h =>
    obtain ⟨k, a, v, t, hk, ha, hv, ht, rfl⟩ := hitem _ _ h
    exact .last hk ha hv ht
  | cons h _ ih =>
    obtain ⟨k, a, v, t, hk, ha, hv, ht, rfl⟩ := hitem _ _ h
    exact .cons hk ha hv ht ih

private theorem BracketText.valueText {α : Type} {b : Bracket} {Item : α → List Char → Prop} {xs : List α}
    {s : List Char}
    (hitem : ∀ x s, Item x s → ∃ k a v t, LabelText b k ∧ Blanks a ∧ ValueText v ∧ Blanks t ∧ s = k ++ a ++ v ++ t)
    (h : BracketText b Item xs s) : ValueText s := by
  cases h with
  | empty h => exact .empty b h
  | items h => exact .items (h.itemsText hitem)

theorem ArrayText.valueText {vs : List (List Char)} {s : List Char} (h : ArrayText vs s) : ValueText s := by
  refine BracketText.valueText ?_ h
  rintro v _ ⟨ha, hv, ht⟩
  exact ⟨[], _, v, _, .element, ha, hv, ht, rfl⟩

theorem ObjectText.valueText {ms : List Member} {s : List Char} (h : ObjectText ms s) : ValueText s := by
  refine BracketText.valueText ?_ h
  rintro m _ ⟨ha, hq, ht, hu, hv, hw⟩
  exact ⟨_, _, _, _, .key ha hq.bodyText ht, hu, hv, hw, by simp⟩

end Json

end CrossMesh
