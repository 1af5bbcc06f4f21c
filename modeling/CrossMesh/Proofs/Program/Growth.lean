import CrossMesh.Proofs.Program.Lookup

/-!
# The values a program gains

An input and the results of an inserted operation are new values behind those that are there (`Gains.addInput`,
`Gains.place`).  Their types and placements are known from the input and from the draft, and the types and placements
that were known before stay as they are.  So two programs that gain values of the same types and placements stay
aligned, however many operations each of them needs for it (`Aligned.gains`).
-/

namespace CrossMesh

namespace Program

/-! ### Types and placements of values -/

theorem valueType_congr {p q : Program} {v : ValueId} (h : q.value? v = p.value? v) :
    q.valueType v = p.valueType v := by
  unfold valueType value
  rw [h]

theorem valueType_of_value? {p : Program} {v : ValueId} {x : Value} (h : p.value? v = some x) :
    p.valueType v = .ok x.type := by
  unfold valueType value
  rw [h]
  rfl

theorem valueType_of_le {p : Program} {v : ValueId} (h : p.values.size ≤ v.index) :
    p.valueType v = .error (.unknownValue v) := by
  unfold valueType value value?
  rw [Array.getElem?_eq_none h]
  rfl

/-- The placement of a value is that of an input, or the one that the operation which makes it declares. -/
theorem valuePlacement_eq_ok_iff {p : Program} {v : ValueId} {a : Option Placement} :
    p.valuePlacement v = .ok a ↔ ∃ x, p.value? v = some x ∧ (x.origin = .input a ∨
      ∃ op i o, x.origin = .result op i ∧ p.op? op = some o ∧ (o.placement.bind fun b => b.results[i]?) = a) := by
  unfold valuePlacement value
  cases hv : p.value? v with
  | none => simp
  | some x =>
    cases ho : x.origin with
    | input placement => simp [ho]
    | result op i =>
      unfold Program.op
      cases hop : p.op? op <;> simp [ho, hop, Except.map]

/-! ### New values -/

/-- The types and placements of the results of a draft. -/
def Draft.gained (d : Draft) : List (TensorType × Option Placement) :=
  d.types.mapIdx fun i type => (type, d.placement.bind fun a => a.results[i]?)

/-- The program `q` has the values of `p` and behind them new ones with these types and placements. -/
structure Gains (p : Program) (news : List (TensorType × Option Placement)) (q : Program) : Prop where
  size_values : q.values.size = p.values.size + news.length
  valueType_old : ∀ v, v.index < p.values.size → q.valueType v = p.valueType v
  valuePlacement_old : ∀ v a, p.valuePlacement v = .ok a → q.valuePlacement v = .ok a
  new : ∀ i x, news[i]? = some x →
    q.valueType ⟨p.values.size + i⟩ = .ok x.1 ∧ q.valuePlacement ⟨p.values.size + i⟩ = .ok x.2

namespace Gains

variable {p q r : Program} {news more : List (TensorType × Option Placement)}

theorem trans (h : p.Gains news q) (h' : q.Gains more r) : p.Gains (news ++ more) r where
  size_values := by rw [h'.size_values, h.size_values, List.length_append, Nat.add_assoc]
  valueType_old v hv := by
    have hq : v.index < q.values.size := by
      rw [h.size_values]
      exact Nat.lt_add_right _ hv
    rw [h'.valueType_old v hq, h.valueType_old v hv]
  valuePlacement_old v a hv := h'.valuePlacement_old v a (h.valuePlacement_old v a hv)
  new i x hx := by
    by_cases hi : i < news.length
    · rw [List.getElem?_append_left hi] at hx
      obtain ⟨htype, hplacement⟩ := h.new i x hx
      have hq : p.values.size + i < q.values.size := by
        rw [h.size_values]
        omega
      exact ⟨(h'.valueType_old _ hq).trans htype, h'.valuePlacement_old _ _ hplacement⟩
    · rw [List.getElem?_append_right (Nat.le_of_not_lt hi)] at hx
      have heq : q.values.size + (i - news.length) = p.values.size + i := by
        rw [h.size_values]
        omega
      rw [← heq]
      exact h'.new _ x hx

theorem addInput (p : Program) (type : TensorType) (placement : Option Placement) :
    p.Gains [(type, placement)] (p.addInput type placement) where
  size_values := by simp [Program.addInput]
  valueType_old v hv := by
    have hx : p.value? v = some p.values[v.index] := Array.getElem?_eq_getElem hv
    exact valueType_congr ((value?_addInput_old type placement hx).trans hx.symm)
  valuePlacement_old v a hv := by
    obtain ⟨x, hx, horigin⟩ := valuePlacement_eq_ok_iff.1 hv
    exact valuePlacement_eq_ok_iff.2 ⟨x, value?_addInput_old type placement hx, horigin⟩
  new i x hx := by
    obtain ⟨hi, rfl⟩ := List.getElem?_eq_some_iff.1 hx
    obtain rfl : i = 0 := by simpa using hi
    have hnew : (p.addInput type placement).value? ⟨p.values.size⟩ = some ⟨type, .input placement⟩ := by
      simp [value?, Program.addInput]
    exact ⟨valueType_of_value? hnew, valuePlacement_eq_ok_iff.2 ⟨_, hnew, .inl rfl⟩⟩

theorem place (p : Program) (d : Draft) : p.Gains d.gained (p.place d) where
  size_values := by rw [size_values_place, Draft.gained, List.length_mapIdx]
  valueType_old v hv := valueType_congr (value?_place_old d hv)
  valuePlacement_old v a hv := by
    obtain ⟨x, hx, horigin⟩ := valuePlacement_eq_ok_iff.1 hv
    refine valuePlacement_eq_ok_iff.2 ⟨x, (value?_place_old d (lt_of_value?_eq_some hx)).trans hx, ?_⟩
    rcases horigin with hinput | ⟨op, i, o, hresult, ho, ha⟩
    · exact .inl hinput
    · exact .inr ⟨op, i, o, hresult, (op?_place_old d (lt_of_op?_eq_some ho)).trans ho, ha⟩
  new i x hx := by
    unfold Draft.gained at hx
    rw [List.getElem?_mapIdx, Option.map_eq_some_iff] at hx
    obtain ⟨type, htype, rfl⟩ := hx
    have hnew : (p.place d).value? ⟨p.values.size + i⟩ = some ⟨type, .result p.nextOp i⟩ := by
      rw [value?_place_new, htype]
      rfl
    exact ⟨valueType_of_value? hnew,
      valuePlacement_eq_ok_iff.2 ⟨_, hnew, .inr ⟨_, _, _, rfl, op?_place_nextOp p d, rfl⟩⟩⟩

end Gains

/-! ### A new type of a value -/

theorem valueType_setType {p q : Program} {v : ValueId} {type : TensorType} (h : p.setType v type = .ok q)
    (u : ValueId) : q.valueType u = if u = v then .ok type else p.valueType u := by
  obtain ⟨x, hx, rfl⟩ := setType_eq_ok h
  obtain ⟨i⟩ := v
  obtain ⟨j⟩ := u
  have hlt := lt_of_value?_eq_some hx
  unfold valueType value value?
  simp only [Array.getElem?_setIfInBounds, ValueId.mk.injEq]
  by_cases hij : j = i
  · subst hij
    simp [hlt, Except.map]
  · simp [hij, Ne.symm hij]

theorem valuePlacement_setType {p q : Program} {v : ValueId} {type : TensorType} (h : p.setType v type = .ok q)
    (u : ValueId) : q.valuePlacement u = p.valuePlacement u := by
  obtain ⟨x, hx, rfl⟩ := setType_eq_ok h
  obtain ⟨i⟩ := v
  obtain ⟨j⟩ := u
  have hlt := lt_of_value?_eq_some hx
  unfold value? at hx
  unfold valuePlacement value value?
  simp only [Array.getElem?_setIfInBounds]
  by_cases hij : i = j
  · subst hij
    simp only [hlt, ↓reduceIte, hx]
    rfl
  · simp only [hij, ↓reduceIte]
    rfl

theorem size_values_setType {p q : Program} {v : ValueId} {type : TensorType} (h : p.setType v type = .ok q) :
    q.values.size = p.values.size := by
  obtain ⟨x, -, rfl⟩ := setType_eq_ok h
  simp

/-! ### Aligned programs -/

/-- Two programs have as many values, of the same types, and those numbered from `first` on have the same known
placements. -/
structure Aligned (first : Nat) (p q : Program) : Prop where
  first_le : first ≤ p.values.size
  size_values : p.values.size = q.values.size
  valueType_eq : ∀ v, p.valueType v = q.valueType v
  placement_eq : ∀ v, first ≤ v.index → v.index < p.values.size →
    ∃ a, p.valuePlacement v = .ok a ∧ q.valuePlacement v = .ok a

namespace Aligned

variable {first : Nat} {p p' q q' : Program}

theorem refl (p : Program) : Aligned p.values.size p p where
  first_le := Nat.le_refl _
  size_values := rfl
  valueType_eq _ := rfl
  placement_eq _ hle hlt := absurd hlt (Nat.not_lt.2 hle)

theorem nextValue_eq (h : Aligned first p q) : p.nextValue = q.nextValue := congrArg ValueId.mk h.size_values

/-- Programs that gain the same stay aligned. -/
theorem gains (h : Aligned first p q) {news : List (TensorType × Option Placement)} (hp : p.Gains news p')
    (hq : q.Gains news q') : Aligned first p' q' := by
  have hsize : p'.values.size = q'.values.size := by rw [hp.size_values, hq.size_values, h.size_values]
  -- A value of the one is an old value of both or a new value of both.
  have cases_lt : ∀ v : ValueId, v.index < p'.values.size → v.index < p.values.size ∨
      ∃ i x, news[i]? = some x ∧ v = ⟨p.values.size + i⟩ := by
    rintro ⟨j⟩ hj
    rw [hp.size_values] at hj
    by_cases hold : j < p.values.size
    · exact .inl hold
    · obtain ⟨i, rfl⟩ := Nat.exists_eq_add_of_le (Nat.le_of_not_lt hold)
      exact .inr ⟨i, _, List.getElem?_eq_getElem (Nat.lt_of_add_lt_add_left hj), rfl⟩
  constructor
  case first_le =>
    rw [hp.size_values]
    exact Nat.le_add_right_of_le h.first_le
  case size_values => exact hsize
  case valueType_eq =>
    intro v
    by_cases hv : v.index < p'.values.size
    · rcases cases_lt v hv with hold | ⟨i, x, hx, rfl⟩
      · rw [hp.valueType_old v hold, hq.valueType_old v (h.size_values ▸ hold), h.valueType_eq]
      · rw [(hp.new i x hx).1, h.size_values, (hq.new i x hx).1]
    · have hle := Nat.le_of_not_lt hv
      rw [valueType_of_le hle, valueType_of_le (hsize ▸ hle)]
  case placement_eq =>
    intro v hfirst hv
    rcases cases_lt v hv with hold | ⟨i, x, hx, rfl⟩
    · obtain ⟨a, ha, ha'⟩ := h.placement_eq v hfirst hold
      exact ⟨a, hp.valuePlacement_old v a ha, hq.valuePlacement_old v a ha'⟩
    · exact ⟨x.2, (hp.new i x hx).2, h.size_values ▸ (hq.new i x hx).2⟩

theorem setType (h : Aligned first p q) {v : ValueId} {type : TensorType} (hp : p.setType v type = .ok p')
    (hq : q.setType v type = .ok q') : Aligned first p' q' where
  first_le := by
    rw [size_values_setType hp]
    exact h.first_le
  size_values := by rw [size_values_setType hp, size_values_setType hq, h.size_values]
  valueType_eq u := by rw [valueType_setType hp, valueType_setType hq, h.valueType_eq]
  placement_eq u hfirst hu := by
    rw [size_values_setType hp] at hu
    rw [valuePlacement_setType hp, valuePlacement_setType hq]
    exact h.placement_eq u hfirst hu

/-- The first value that both programs gain has the same type and placement in both, and these are known. -/
theorem nextValue_gains (h : Aligned first p q) {x : TensorType × Option Placement}
    {news : List (TensorType × Option Placement)} (hp : p.Gains (x :: news) p') (hq : q.Gains (x :: news) q') :
    p'.valueType p.nextValue = .ok x.1 ∧ q'.valueType p.nextValue = .ok x.1 ∧
      p'.valuePlacement p.nextValue = .ok x.2 ∧ q'.valuePlacement p.nextValue = .ok x.2 := by
  obtain ⟨htype, hplacement⟩ := hp.new 0 x rfl
  obtain ⟨htype', hplacement'⟩ := hq.new 0 x rfl
  rw [← h.size_values] at htype' hplacement'
  exact ⟨htype, htype', hplacement, hplacement'⟩

end Aligned

end Program

end CrossMesh
