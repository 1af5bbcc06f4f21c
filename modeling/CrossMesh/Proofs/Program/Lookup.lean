import CrossMesh.Program.Basic
import Mathlib.Data.List.Basic

/-!
# Looking up after a change

What `op?` and `value?` answer after an operation was inserted, changed or removed, and when these changes succeed.
An insertion leaves all old operations and values alone (`op?_place_old`, `value?_place_old`).  An operation that is
changed right after its insertion is the one that a changed draft makes (`setPlacement_place`, `setStream_place`,
`setResultType_place`).
-/

namespace CrossMesh

namespace Program

/-! ### Insertion -/

theorem op?_place (p : Program) (d : Draft) (op : OpId) :
    (p.place d).op? op = if op = p.nextOp then some (p.draftOperation d) else p.op? op := by
  obtain ⟨i⟩ := op
  unfold op? place nextOp
  rw [Array.getElem?_push]
  by_cases h : i = p.ops.size
  · simp [h]
  · simp [h]

theorem op?_place_nextOp (p : Program) (d : Draft) : (p.place d).op? p.nextOp = some (p.draftOperation d) := by
  rw [op?_place, if_pos rfl]

theorem lt_of_op?_eq_some {p : Program} {op : OpId} {o : Operation} (h : p.op? op = some o) :
    op.index < p.ops.size := by
  unfold op? at h
  by_contra hn
  rw [Array.getElem?_eq_none (Nat.le_of_not_lt hn)] at h
  exact absurd h (by simp)

theorem op?_place_old {p : Program} (d : Draft) {op : OpId} (h : op.index < p.ops.size) :
    (p.place d).op? op = p.op? op := by
  rw [op?_place, if_neg]
  rintro rfl
  exact Nat.lt_irrefl _ h

theorem size_ops_place (p : Program) (d : Draft) : (p.place d).ops.size = p.ops.size + 1 := by
  simp [place]

theorem size_values_place (p : Program) (d : Draft) :
    (p.place d).values.size = p.values.size + d.types.length := by
  simp [place]

theorem lt_of_value?_eq_some {p : Program} {v : ValueId} {x : Value} (h : p.value? v = some x) :
    v.index < p.values.size := by
  unfold value? at h
  by_contra hn
  rw [Array.getElem?_eq_none (Nat.le_of_not_lt hn)] at h
  exact absurd h (by simp)

theorem value?_place_old {p : Program} (d : Draft) {v : ValueId} (h : v.index < p.values.size) :
    (p.place d).value? v = p.value? v := by
  unfold value? place
  rw [Array.getElem?_append_left h]

theorem value?_place_new (p : Program) (d : Draft) (i : Nat) :
    (p.place d).value? ⟨p.values.size + i⟩ = d.types[i]?.map fun type => ⟨type, .result p.nextOp i⟩ := by
  unfold value? place
  rw [Array.getElem?_append_right (Nat.le_add_right ..)]
  simp

/-- An operation without results makes no value. -/
theorem nextValue_place {p : Program} {d : Draft} (h : d.types = []) : (p.place d).nextValue = p.nextValue := by
  rw [nextValue, size_values_place, h]
  rfl

theorem draftResults_of_single {p : Program} {d : Draft} {type : TensorType} (h : d.types = [type]) :
    p.draftResults d = [p.nextValue] := by
  rw [draftResults, h]
  rfl

theorem value?_place_nextValue {p : Program} {d : Draft} {type : TensorType} (h : d.types = [type]) :
    (p.place d).value? p.nextValue = some ⟨type, .result p.nextOp 0⟩ := by
  show (p.place d).value? ⟨p.values.size + 0⟩ = _
  rw [value?_place_new, h]
  rfl

/-- The values after an insertion are the old ones and those the draft makes. -/
theorem value?_place {p : Program} {d : Draft} {v : ValueId} {x : Value} (h : (p.place d).value? v = some x) :
    p.value? v = some x ∨
      ∃ i type, d.types[i]? = some type ∧ v = ⟨p.values.size + i⟩ ∧ x = ⟨type, .result p.nextOp i⟩ := by
  by_cases hv : v.index < p.values.size
  · left
    rw [← value?_place_old d hv]
    exact h
  · right
    obtain ⟨j⟩ := v
    obtain ⟨i, rfl⟩ : ∃ i, j = p.values.size + i := ⟨j - p.values.size, by simp at hv; omega⟩
    rw [value?_place_new] at h
    obtain ⟨type, ht, rfl⟩ := Option.map_eq_some_iff.1 h
    exact ⟨i, type, ht, rfl, rfl⟩

/-- A new input leaves the values that are there alone. -/
theorem value?_addInput_old {p : Program} (type : TensorType) (placement : Option Placement) {v : ValueId} {x : Value}
    (h : p.value? v = some x) : (p.addInput type placement).value? v = some x := by
  have hne := Nat.ne_of_lt (lt_of_value?_eq_some h)
  unfold value? addInput
  rw [Array.getElem?_push, if_neg hne]
  exact h

theorem getElem?_draftResults_eq_some {p : Program} {d : Draft} {i : Nat} {v : ValueId} :
    (p.draftResults d)[i]? = some v ↔ i < d.types.length ∧ v = ⟨p.values.size + i⟩ := by
  unfold draftResults
  rw [List.getElem?_map, Option.map_eq_some_iff]
  constructor
  · rintro ⟨j, hj, rfl⟩
    obtain ⟨hlt, rfl⟩ := List.getElem?_eq_some_iff.1 hj
    rw [List.getElem_range]
    exact ⟨by simpa using hlt, rfl⟩
  · rintro ⟨hi, rfl⟩
    exact ⟨i, List.getElem?_range hi, rfl⟩

/-- The draft uses only values of the program. -/
def Known (p : Program) (d : Draft) : Prop := ∀ v ∈ d.operands, v.index < p.values.size

instance (p : Program) (d : Draft) : Decidable (p.Known d) :=
  inferInstanceAs (Decidable (∀ v ∈ d.operands, v.index < p.values.size))

theorem insert_of_known {p : Program} {d : Draft} (h : p.Known d) : p.insert d = .ok (p.nextOp, p.place d) := by
  unfold insert
  have hnone : (d.operands.find? fun v => p.values.size ≤ v.index) = none :=
    List.find?_eq_none.2 fun v hv => by simpa using h v hv
  rw [hnone]

theorem insert_eq_ok {p q : Program} {d : Draft} {op : OpId} (h : p.insert d = .ok (op, q)) :
    p.Known d ∧ op = p.nextOp ∧ q = p.place d := by
  unfold insert at h
  split at h
  · exact absurd h (by simp)
  · rename_i hnone
    obtain ⟨rfl, rfl⟩ := Prod.mk.inj (Except.ok.inj h)
    exact ⟨fun v hv => by simpa using List.find?_eq_none.1 hnone v hv, rfl, rfl⟩

/-- A value that an operation may use: an input, or the result of an operation that is left. -/
def Available (p : Program) (v : ValueId) : Prop :=
  ∃ x, p.value? v = some x ∧ ∀ op i, x.origin = .result op i → ∃ o, p.op? op = some o

theorem Available.lt {p : Program} {v : ValueId} (h : p.Available v) : v.index < p.values.size := by
  obtain ⟨x, hx, -⟩ := h
  exact lt_of_value?_eq_some hx

/-- The result of an inserted operation can be used. -/
theorem available_place_nextValue {p : Program} {d : Draft} {type : TensorType} (h : d.types = [type]) :
    (p.place d).Available p.nextValue := by
  refine ⟨_, value?_place_nextValue h, fun op i ho => ?_⟩
  obtain ⟨rfl, -⟩ := Origin.result.inj ho
  exact ⟨_, op?_place_nextOp p d⟩

theorem definingOp_eq_some_iff {p : Program} {v : ValueId} {op : OpId} :
    p.definingOp v = .ok (some op) ↔ ∃ x i, p.value? v = some x ∧ x.origin = .result op i := by
  unfold definingOp Program.value
  cases p.value? v with
  | none => simp [Except.map]
  | some x => cases ho : x.origin <;> simp [Except.map, ho]

/-- Why an operation may not use a value: it was never made, or the operation that makes it was removed. -/
inductive Missing (p : Program) (v : ValueId) : ProgramError → Prop
  | unmade (hvalue : ¬v.index < p.values.size) : Missing p v (.unknownValue v)
  | removed {op : OpId} (hdefiner : p.definingOp v = .ok (some op)) (hop : p.op? op = none) :
      Missing p v (.unknownOp op)

theorem not_available_iff {p : Program} {v : ValueId} : ¬p.Available v ↔ ∃ e, p.Missing v e := by
  constructor
  · intro h
    by_contra hnone
    by_cases hv : v.index < p.values.size
    · have hx : p.value? v = some p.values[v.index] := Array.getElem?_eq_getElem hv
      refine h ⟨_, hx, fun op i ho => Option.ne_none_iff_exists'.1 fun hop => hnone ⟨_, .removed ?_ hop⟩⟩
      exact definingOp_eq_some_iff.2 ⟨_, i, hx, ho⟩
    · exact hnone ⟨_, .unmade hv⟩
  · rintro ⟨e, hmissing⟩ havailable
    cases hmissing with
    | unmade hvalue => exact hvalue havailable.lt
    | removed hdefiner hop =>
      obtain ⟨x, hx, horigin⟩ := havailable
      obtain ⟨y, i, hy, ho⟩ := definingOp_eq_some_iff.1 hdefiner
      obtain rfl := Option.some.inj (hx.symm.trans hy)
      obtain ⟨o, hsome⟩ := horigin _ i ho
      exact absurd (hop.symm.trans hsome) (by simp)

theorem position_eq_ok_iff {p : Program} {op : OpId} {i : Nat} :
    p.position op = .ok i ↔ p.order.idxOf? op = some i := by
  unfold position
  cases p.order.idxOf? op <;> simp

/-! ### Changes in place -/

theorem op?_set {p : Program} {op : OpId} (h : op.index < p.ops.size) (x : Option Operation) (id : OpId) :
    ({ p with ops := p.ops.setIfInBounds op.index x } : Program).op? id = if id = op then x else p.op? id := by
  obtain ⟨i⟩ := op
  obtain ⟨j⟩ := id
  unfold op?
  simp only [Array.getElem?_setIfInBounds, OpId.mk.injEq]
  by_cases hij : j = i
  · subst hij
    rw [if_pos rfl, if_pos h, if_pos rfl]
    rfl
  · rw [if_neg (Ne.symm hij), if_neg hij]

theorem setOp_eq_ok {p q : Program} {op : OpId} {f : Operation → Operation} (h : p.setOp op f = .ok q) :
    ∃ o, p.op? op = some o ∧ q = { p with ops := p.ops.setIfInBounds op.index (some (f o)) } := by
  unfold setOp Program.op at h
  split at h
  · rename_i o ho
    exact ⟨o, ho, (Except.ok.inj h).symm⟩
  · exact absurd h (by simp [Except.map])

theorem op?_setOp {p q : Program} {op : OpId} {f : Operation → Operation} (h : p.setOp op f = .ok q) (id : OpId) :
    q.op? id = if id = op then (p.op? op).map f else p.op? id := by
  obtain ⟨o, ho, rfl⟩ := setOp_eq_ok h
  rw [op?_set (lt_of_op?_eq_some ho), ho]
  rfl

theorem setType_eq_ok {p q : Program} {v : ValueId} {type : TensorType} (h : p.setType v type = .ok q) :
    ∃ x, p.value? v = some x ∧ q = { p with values := p.values.setIfInBounds v.index { x with type } } := by
  unfold setType Program.value at h
  split at h
  · rename_i x hx
    exact ⟨x, hx, (Except.ok.inj h).symm⟩
  · exact absurd h (by simp [Except.map])

/-! ### Changes behind an insertion -/

/-- What is written at the place that was just pushed stands there instead. -/
private theorem setIfInBounds_push_size {α : Type} (xs : Array α) (x y : α) :
    (xs.push x).setIfInBounds xs.size y = xs.push y := by
  rw [← Array.toList_inj]
  simp [Array.toList_setIfInBounds, List.set_append_right]

theorem op_place_nextOp (p : Program) (d : Draft) : (p.place d).op p.nextOp = .ok (p.draftOperation d) := by
  unfold Program.op
  rw [op?_place_nextOp]

theorem setPlacement_place (p : Program) (d : Draft) (placement : OpPlacement) :
    (p.place d).setPlacement p.nextOp placement = .ok (p.place { d with placement := some placement }) := by
  unfold setPlacement setOp
  rw [op_place_nextOp]
  simp only [Except.map, place, nextOp, setIfInBounds_push_size]
  rfl

theorem setStream_place (p : Program) (d : Draft) (stream : StreamKind) :
    (p.place d).setStream p.nextOp stream = .ok (p.place { d with stream := some stream }) := by
  unfold setStream setOp
  rw [op_place_nextOp]
  simp only [Except.map, place, nextOp, setIfInBounds_push_size]
  rfl

theorem firstResult_place {p : Program} {d : Draft} {type : TensorType} (h : d.types = [type]) :
    (p.place d).firstResult p.nextOp = .ok p.nextValue := by
  unfold firstResult
  rw [op_place_nextOp]
  simp [Except.map, draftOperation, draftResults_of_single h]

theorem setResultType_place {p : Program} {d : Draft} {old : TensorType} (h : d.types = [old]) (type : TensorType) :
    (p.place d).setResultType p.nextOp type = .ok (p.place { d with types := [type] }) := by
  have hvalue : (p.place d).value p.nextValue = .ok ⟨old, .result p.nextOp 0⟩ := by
    unfold Program.value
    rw [value?_place_nextValue h]
  unfold setResultType
  simp only [firstResult_place h, setType, hvalue, Except.map]
  simp [place, nextValue, nextOp, draftOperation, draftResults, h, setIfInBounds_push_size]

theorem changeAll_cons {p q : Program} {f : Program → Except ProgramError Program} (h : f p = .ok q)
    (fs : List (Program → Except ProgramError Program)) : p.changeAll (f :: fs) = q.changeAll fs := by
  rw [changeAll, h]

/-! ### Removal -/

theorem remove_eq_ok {p q : Program} {op : OpId} {o : Operation} (h : p.remove op = .ok (o, q)) :
    ∃ i, p.order.idxOf? op = some i ∧ p.op? op = some o ∧ (∀ v ∈ o.results, p.hasUsers v = false) ∧
      q = { p with
        ops := p.ops.setIfInBounds op.index none
        order := p.order.eraseIdx i
        cursor := p.cursor.map fun c => if i < c then c - 1 else c } := by
  unfold remove position Program.op at h
  cases hi : p.order.idxOf? op with
  | none => simp [hi] at h
  | some i =>
    cases ho : p.op? op with
    | none => simp [hi, ho] at h
    | some o' =>
      simp only [hi, ho] at h
      split at h
      · exact absurd h (by simp)
      · rename_i hnone
        obtain ⟨rfl, rfl⟩ := Prod.mk.inj (Except.ok.inj h)
        exact ⟨i, rfl, rfl, fun v hv => by simpa using List.find?_eq_none.1 hnone v hv, rfl⟩

theorem op?_remove {p q : Program} {op : OpId} {o : Operation} (h : p.remove op = .ok (o, q)) (id : OpId) :
    q.op? id = if id = op then none else p.op? id := by
  obtain ⟨i, -, ho, -, rfl⟩ := remove_eq_ok h
  exact op?_set (lt_of_op?_eq_some ho) none id

theorem values_remove {p q : Program} {op : OpId} {o : Operation} (h : p.remove op = .ok (o, q)) :
    q.values = p.values := by
  obtain ⟨i, -, -, -, rfl⟩ := remove_eq_ok h
  rfl

/-- What is left after a removal was left before. -/
theorem op?_of_remove {p q : Program} {op : OpId} {o : Operation} (h : p.remove op = .ok (o, q)) {id : OpId}
    {o' : Operation} (ho' : q.op? id = some o') : p.op? id = some o' := by
  rw [op?_remove h] at ho'
  split at ho'
  · exact absurd ho' (by simp)
  · exact ho'

theorem value?_remove {p q : Program} {op : OpId} {o : Operation} (h : p.remove op = .ok (o, q)) (v : ValueId) :
    q.value? v = p.value? v := by
  rw [value?, values_remove h, value?]

theorem size_ops_remove {p q : Program} {op : OpId} {o : Operation} (h : p.remove op = .ok (o, q)) :
    q.ops.size = p.ops.size := by
  obtain ⟨i, -, -, -, rfl⟩ := remove_eq_ok h
  simp

/-! ### The operations that are left -/

theorem mem_live_iff {p : Program} {op : OpId} {o : Operation} :
    (op, o) ∈ p.live ↔ op ∈ p.order ∧ p.op? op = some o := by
  unfold live
  rw [List.mem_filterMap]
  constructor
  · rintro ⟨id, hid, heq⟩
    obtain ⟨o', ho', hpair⟩ := Option.map_eq_some_iff.1 heq
    obtain ⟨rfl, rfl⟩ := Prod.mk.inj hpair
    exact ⟨hid, ho'⟩
  · rintro ⟨hop, ho⟩
    exact ⟨op, hop, by rw [ho]; rfl⟩

theorem hasUsers_iff {p : Program} {v : ValueId} : p.hasUsers v = true ↔ ∃ u ∈ p.live, v ∈ u.2.operands := by
  unfold hasUsers users
  rw [Bool.not_eq_true', List.isEmpty_eq_false_iff, ← List.length_pos_iff, List.length_pos_iff_exists_mem]
  simp [Operation.consumes]

end Program

end CrossMesh
