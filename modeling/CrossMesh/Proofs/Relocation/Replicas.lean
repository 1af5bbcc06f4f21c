import CrossMesh.Proofs.Program.Answers
import CrossMesh.Proofs.Program.Growth
import CrossMesh.Proofs.Relocation.Answer

/-!
# Replicas stay aligned

Ranks that start from one program and make the same calls take different parts in relocations: one inserts a send and a
placeholder, another a receive, a third a placeholder, so that their operations soon differ in number and order.  Every
part but that of a rank that keeps its data makes exactly one value, though (`Part.gains`), and so the values of the
ranks stay the same, with the same numbers, types and placements (`replicas_aligned`).
-/

namespace CrossMesh

/-- Every role but that of a stationary rank gains one value, which it answers with. -/
theorem Relocation.Part.gains {m : Relocation} {p : Program} {t : Groups} {rank : Rank} {config : Config} {role : Role}
    {ds : List Program.Draft} {v : ValueId} (h : m.Part p t rank config role ds v) (hrole : role ≠ .stationary) :
    v = p.nextValue ∧ p.Gains [(m.type, some m.dst)] (p.placeAll ds) := by
  cases h with
  | @sender peer g chunk hg hchunk =>
    -- The send makes no value, so what the two gain is what the placeholder does.
    have hsend := Program.Gains.place p (m.sendDraft g.id chunk config.stream)
    exact ⟨rfl, hsend.trans (Program.Gains.place _ m.placeholderDraft)⟩
  | @receiver peer g hg htype =>
    exact ⟨rfl, Program.Gains.place p (m.receiveDraft g.id (p.receivingChunk m.value m.dst.mesh) config.stream)⟩
  | stationary => exact absurd rfl hrole
  | bystander hsrc hdst hvalue => exact ⟨rfl, Program.Gains.place p m.placeholderDraft⟩

namespace Program

/-- The same call on two ranks: an input, an insertion, a new type of a value, or a relocation that moves the value on
both.  Each rank relocates with the groups it has. -/
inductive Mirrored (r s : Rank) : Action → Action → Prop
  | addInput (type : TensorType) (placement : Option Placement) :
      Mirrored r s (.addInput type placement) (.addInput type placement)
  | insert (d : Draft) : Mirrored r s (.insert d) (.insert d)
  | setType (v : ValueId) (type : TensorType) : Mirrored r s (.setType v type) (.setType v type)
  | relocate (t t' : Groups) (config : Config) {m : Relocation} (hr : roleOf m.pairs r ≠ .stationary)
      (hs : roleOf m.pairs s ≠ .stationary) : Mirrored r s (.relocate t r config m) (.relocate t' s config m)

/-- Two ranks report aligned programs and, if one answers with a value, the same value, which has the same type and
placement in both programs. -/
structure Report.Agree (first : Nat) (x y : Report) : Prop where
  aligned : Aligned first x.program y.program
  value : ∀ v, x.answer = .ok (.value v) → y.answer = .ok (.value v) ∧ ∃ type placement,
    x.program.valueType v = .ok type ∧ y.program.valueType v = .ok type ∧
      x.program.valuePlacement v = .ok placement ∧ y.program.valuePlacement v = .ok placement

/-- Two ranks that gain the same values and answer with the first of them agree. -/
theorem Aligned.agree {first : Nat} {p p' q q' : Program} (h : Aligned first p q)
    {x : TensorType × Option Placement} (hp : p.Gains [x] p') (hq : q.Gains [x] q') :
    Report.Agree first ⟨.ok (.value p.nextValue), p'⟩ ⟨.ok (.value q.nextValue), q'⟩ where
  aligned := h.gains hp hq
  value v hv := by
    obtain rfl := Answer.value.inj (Except.ok.inj hv)
    exact ⟨by rw [h.nextValue_eq], x.1, x.2, h.nextValue_gains hp hq⟩

/-- Two ranks with aligned programs agree if they answer with no value. -/
theorem Aligned.agree_of_ne {first : Nat} {p q : Program} (h : Aligned first p q) {x y : Answer}
    (hx : ∀ v, x ≠ .value v) : Report.Agree first ⟨.ok x, p⟩ ⟨.ok y, q⟩ :=
  ⟨h, fun v hv => absurd (Except.ok.inj hv) (hx v)⟩

/-- The same call keeps aligned programs aligned and gives both ranks the same value. -/
theorem Mirrored.agree {first : Nat} {p q : Program} {r s : Rank} {a b : Action} (hab : Mirrored r s a b)
    (h : Aligned first p q) (ha : ¬p.Fails a) (hb : ¬q.Fails b) :
    Report.Agree first ⟨p.answer a, p.act a⟩ ⟨q.answer b, q.act b⟩ := by
  cases hab with
  | addInput type placement => exact h.agree (.addInput p type placement) (.addInput q type placement)
  | insert d =>
    cases hp : p.insert d with
    | error e => exact absurd ⟨e, hp⟩ ha
    | ok r =>
      cases hq : q.insert d with
      | error e => exact absurd ⟨e, hq⟩ hb
      | ok r' =>
        obtain ⟨-, -, hr⟩ := insert_eq_ok hp
        obtain ⟨-, -, hr'⟩ := insert_eq_ok hq
        have hplaced : Aligned first r.2 r'.2 := by
          rw [hr, hr']
          exact h.gains (.place p d) (.place q d)
        simp only [answer, act, hp, hq]
        exact hplaced.agree_of_ne (by simp)
  | setType v type =>
    cases hp : p.setType v type with
    | error e => exact absurd ⟨e, hp⟩ ha
    | ok p' =>
      cases hq : q.setType v type with
      | error e => exact absurd ⟨e, hq⟩ hb
      | ok q' =>
        simp only [answer, act, hp, hq]
        exact (h.setType hp hq).agree_of_ne (by simp)
  | @relocate t t' config m hr hs =>
    rcases hp : Worker.relocate { program := p, groups := t } r config m with ⟨e | v, w⟩
    · exact absurd ⟨e, congrArg Prod.fst hp⟩ ha
    rcases hq : Worker.relocate { program := q, groups := t' } s config m with ⟨e | v', w'⟩
    · exact absurd ⟨e, congrArg Prod.fst hq⟩ hb
    obtain ⟨-, -, ds, hpart, hprogram⟩ := Worker.relocate_eq_ok hp
    obtain ⟨-, -, ds', hpart', hprogram'⟩ := Worker.relocate_eq_ok hq
    obtain ⟨rfl, hgains⟩ := hpart.gains hr
    obtain ⟨rfl, hgains'⟩ := hpart'.gains hs
    rw [← hprogram] at hgains
    rw [← hprogram'] at hgains'
    simp only [answer, act, hp, hq]
    exact h.agree hgains hgains'

theorem agree_of_aligned {first : Nat} {p q : Program} {r s : Rank} {actions others : List Action}
    (hcalls : List.Forall₂ (Mirrored r s) actions others) (h : Aligned first p q)
    (hr : ∀ x ∈ p.trace actions, ∃ answer, x.answer = .ok answer)
    (hs : ∀ x ∈ q.trace others, ∃ answer, x.answer = .ok answer) :
    List.Forall₂ (Report.Agree first) (p.trace actions) (q.trace others) := by
  induction hcalls generalizing p q with
  | nil => exact .nil
  | @cons a b actions others hab _ ih =>
    obtain ⟨⟨x, hx⟩, hr⟩ := List.forall_mem_cons.1 hr
    obtain ⟨⟨y, hy⟩, hs⟩ := List.forall_mem_cons.1 hs
    have hagree := hab.agree h (not_fails_of_answer hx) (not_fails_of_answer hy)
    exact .cons hagree (ih hagree.aligned hr hs)

end Program

/-- Two ranks start from the same program and make the same calls, and none fails.  After every call their programs have
as many values, of the same types, and the values made since the start have the same placements.  A call that answers
with a value, as every relocation does, answers with the same value on both ranks. -/
theorem replicas_aligned {p : Program} {r s : Rank} {actions others : List Program.Action}
    (hcalls : List.Forall₂ (Program.Mirrored r s) actions others)
    (hr : ∀ x ∈ p.trace actions, ∃ answer, x.answer = .ok answer)
    (hs : ∀ x ∈ p.trace others, ∃ answer, x.answer = .ok answer) :
    List.Forall₂ (Program.Report.Agree p.values.size) (p.trace actions) (p.trace others) :=
  Program.agree_of_aligned hcalls (.refl p) hr hs

/-- An input, the relocation `overlap`, an operation that uses what it answers with, and a new type of that value. -/
def relocateAndUse (rank : Rank) : List Program.Action :=
  [.addInput ⟨[2], .f32⟩ none, .relocate {} rank {} overlap,
    .insert { kind := .compute "d", operands := [⟨3⟩], types := [⟨[4], .f32⟩] }, .setType ⟨3⟩ ⟨[8], .f32⟩]

theorem relocateAndUse_succeeds (rank : Rank) (h : rank = 0 ∨ rank = 2) :
    ∀ x ∈ Program.forked.trace (relocateAndUse rank), ∃ answer, x.answer = .ok answer := by
  rcases h with rfl | rfl
  all_goals
    unfold relocateAndUse
    simp only [Program.trace, List.forall_mem_cons]
    exact ⟨⟨_, rfl⟩, ⟨_, rfl⟩, ⟨_, rfl⟩, ⟨_, rfl⟩, List.forall_mem_nil _⟩

theorem relocateAndUse_mirrored :
    List.Forall₂ (Program.Mirrored 0 2) (relocateAndUse 0) (relocateAndUse 2) :=
  .cons (.addInput ..) (.cons (.relocate _ _ _ (by decide) (by decide)) (.cons (.insert _) (.cons (.setType ..) .nil)))

/-- The sender and the receiver of `overlap` stay aligned, though the sender has one operation more. -/
theorem replicas_aligned_overlap :
    List.Forall₂ (Program.Report.Agree 2) (Program.forked.trace (relocateAndUse 0))
        (Program.forked.trace (relocateAndUse 2)) ∧
      (Program.forked.run (relocateAndUse 0)).numOps = (Program.forked.run (relocateAndUse 2)).numOps + 1 :=
  ⟨replicas_aligned relocateAndUse_mirrored (relocateAndUse_succeeds 0 (.inl rfl))
    (relocateAndUse_succeeds 2 (.inr rfl)), rfl⟩

end CrossMesh
