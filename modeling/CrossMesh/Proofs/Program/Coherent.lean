import CrossMesh.Proofs.Program.Cursor
import CrossMesh.Proofs.Program.Lookup

/-!
# Coherent programs

The four tables of a program fit together: the execution order lists exactly the operations that are left, each once;
the insertion point lies within it; a value made by an operation stands among its results at the place the value
names, and the other way round; an operation only uses values that were there before its own results.  Every change
of a program keeps this (`Coherent.place`, `Coherent.remove`, …).
-/

namespace CrossMesh

namespace Program

/-! ### The invariant -/

structure Coherent (p : Program) : Prop where
  nodup_order : p.order.Nodup
  mem_order_iff : ∀ op, op ∈ p.order ↔ ∃ o, p.op? op = some o
  cursorInside : p.CursorInside
  /-- The operation a value names was issued. -/
  origin_lt : ∀ v x op i, p.value? v = some x → x.origin = .result op i → op.index < p.ops.size
  /-- While the operation a value names is left, the value is its result at the place it names. -/
  result_of_origin : ∀ v x op i o, p.value? v = some x → x.origin = .result op i → p.op? op = some o →
    o.results[i]? = some v
  /-- A result names its operation and its place. -/
  origin_of_result : ∀ op o i v, p.op? op = some o → o.results[i]? = some v →
    ∃ x, p.value? v = some x ∧ x.origin = .result op i
  operand_lt : ∀ op o v, p.op? op = some o → v ∈ o.operands → v.index < p.values.size
  operand_lt_result : ∀ op o v r, p.op? op = some o → v ∈ o.operands → r ∈ o.results → v.index < r.index
  /-- An operation is issued after those that make its operands. -/
  definer_lt : ∀ op o v x definer i, p.op? op = some o → v ∈ o.operands → p.value? v = some x →
    x.origin = .result definer i → definer.index < op.index

theorem coherent_empty : Coherent {} where
  nodup_order := List.nodup_nil
  mem_order_iff op := by simp [op?]
  cursorInside c h := absurd h (by simp)
  origin_lt v x op i h := absurd h (by simp [value?])
  result_of_origin v x op i o h := absurd h (by simp [value?])
  origin_of_result op o i v h := absurd h (by simp [op?])
  operand_lt op o v h := absurd h (by simp [op?])
  operand_lt_result op o v r h := absurd h (by simp [op?])
  definer_lt op o v x definer i h := absurd h (by simp [op?])

namespace Coherent

variable {p q : Program}

theorem lt_of_mem_order (h : p.Coherent) {op : OpId} (hop : op ∈ p.order) : op.index < p.ops.size := by
  obtain ⟨o, ho⟩ := (h.mem_order_iff op).1 hop
  exact lt_of_op?_eq_some ho

theorem nextOp_notMem (h : p.Coherent) : p.nextOp ∉ p.order :=
  fun hm => Nat.lt_irrefl _ (h.lt_of_mem_order hm)

theorem addInput (h : p.Coherent) (type : TensorType) (placement : Option Placement) :
    (p.addInput type placement).Coherent := by
  have hsize : (p.addInput type placement).values.size = p.values.size + 1 := by simp [Program.addInput]
  have hresult : ∀ v x op i, (p.addInput type placement).value? v = some x → x.origin = .result op i →
      p.value? v = some x := by
    intro v x op i hx ho
    unfold value? Program.addInput at hx
    rw [Array.getElem?_push] at hx
    split at hx
    · obtain rfl := Option.some.inj hx
      exact absurd ho (by simp)
    · exact hx
  constructor
  case nodup_order => exact h.nodup_order
  case mem_order_iff => exact h.mem_order_iff
  case cursorInside => exact h.cursorInside
  case origin_lt => exact fun v x op i hx ho => h.origin_lt v x op i (hresult v x op i hx ho) ho
  case result_of_origin =>
    exact fun v x op i o hx ho => h.result_of_origin v x op i o (hresult v x op i hx ho) ho
  case origin_of_result =>
    intro op o i v hop hv
    obtain ⟨x, hx, ho⟩ := h.origin_of_result op o i v hop hv
    exact ⟨x, value?_addInput_old type placement hx, ho⟩
  case operand_lt =>
    intro op o v hop hv
    have := h.operand_lt op o v hop hv
    omega
  case operand_lt_result => exact h.operand_lt_result
  case definer_lt =>
    exact fun op o v x definer i hop hv hx ho => h.definer_lt op o v x definer i hop hv (hresult v x definer i hx ho) ho

theorem place (h : p.Coherent) {d : Draft} (hd : p.Known d) : (p.place d).Coherent := by
  have hops : ∀ op o, (p.place d).op? op = some o → p.op? op = some o ∨ op = p.nextOp ∧ o = p.draftOperation d := by
    intro op o ho
    rw [op?_place] at ho
    split at ho
    · exact Or.inr ⟨‹_›, (Option.some.inj ho).symm⟩
    · exact Or.inl ho
  have hvalue : ∀ v x, v.index < p.values.size → (p.place d).value? v = some x → p.value? v = some x :=
    fun v x hv hx => value?_place_old d hv ▸ hx
  -- Both tables only grow: each entry is either an old one, for which `p` is coherent, or the one just added.
  constructor
  case nodup_order =>
    rw [order_place h.cursorInside, List.perm_middle.nodup_iff, left_append_right]
    exact List.nodup_cons.2 ⟨h.nextOp_notMem, h.nodup_order⟩
  case mem_order_iff =>
    intro op
    rw [order_place h.cursorInside, List.perm_middle.mem_iff, left_append_right, List.mem_cons, h.mem_order_iff,
      op?_place]
    by_cases hop : op = p.nextOp <;> simp [hop]
  case cursorInside => exact cursorInside_place h.cursorInside d
  case origin_lt =>
    intro v x op i hx ho
    rw [size_ops_place]
    rcases value?_place hx with hx | ⟨j, type, -, -, rfl⟩
    · exact Nat.lt_succ_of_lt (h.origin_lt v x op i hx ho)
    · obtain ⟨rfl, -⟩ := Origin.result.inj ho
      exact Nat.lt_succ_self _
  case result_of_origin =>
    intro v x op i o hx ho hop
    rcases value?_place hx with hx | ⟨j, type, hj, rfl, rfl⟩
    · rw [op?_place_old d (h.origin_lt v x op i hx ho)] at hop
      exact h.result_of_origin v x op i o hx ho hop
    · obtain ⟨rfl, rfl⟩ := Origin.result.inj ho
      rw [op?_place_nextOp] at hop
      obtain rfl := Option.some.inj hop
      exact getElem?_draftResults_eq_some.2 ⟨(List.getElem?_eq_some_iff.1 hj).1, rfl⟩
  case origin_of_result =>
    intro op o i v hop hv
    rcases hops op o hop with hop | ⟨rfl, rfl⟩
    · obtain ⟨x, hx, ho⟩ := h.origin_of_result op o i v hop hv
      exact ⟨x, (value?_place_old d (lt_of_value?_eq_some hx)).trans hx, ho⟩
    · obtain ⟨hi, rfl⟩ := getElem?_draftResults_eq_some.1 hv
      exact ⟨⟨d.types[i], .result p.nextOp i⟩, by rw [value?_place_new, List.getElem?_eq_getElem hi]; rfl, rfl⟩
  case operand_lt =>
    intro op o v hop hv
    rw [size_values_place]
    rcases hops op o hop with hop | ⟨rfl, rfl⟩
    · exact Nat.lt_add_right _ (h.operand_lt op o v hop hv)
    · exact Nat.lt_add_right _ (hd v hv)
  case operand_lt_result =>
    intro op o v r hop hv hr
    rcases hops op o hop with hop | ⟨rfl, rfl⟩
    · exact h.operand_lt_result op o v r hop hv hr
    · obtain ⟨i, hi⟩ := List.mem_iff_getElem?.1 hr
      obtain ⟨-, rfl⟩ := getElem?_draftResults_eq_some.1 hi
      exact Nat.lt_of_lt_of_le (hd v hv) (Nat.le_add_right ..)
  case definer_lt =>
    intro op o v x definer i hop hv hx ho
    rcases hops op o hop with hop | ⟨rfl, rfl⟩
    · exact h.definer_lt op o v x definer i hop hv (hvalue v x (h.operand_lt op o v hop hv) hx) ho
    · exact h.origin_lt v x definer i (hvalue v x (hd v hv) hx) ho

end Coherent

/-! ### Changes in place -/

/-- The program `q` is `p` but for the insertion point, the placements and streams of operations and the types of
values. -/
structure Alike (p q : Program) : Prop where
  order_eq : q.order = p.order
  size_ops : q.ops.size = p.ops.size
  size_values : q.values.size = p.values.size
  op?_eq : ∀ op, (q.op? op).map (fun o => (o.kind, o.operands, o.results)) =
    (p.op? op).map fun o => (o.kind, o.operands, o.results)
  value?_eq : ∀ v, (q.value? v).map Value.origin = (p.value? v).map Value.origin

namespace Alike

variable {p q : Program}

theorem refl (p : Program) : p.Alike p := ⟨rfl, rfl, rfl, fun _ => rfl, fun _ => rfl⟩

theorem symm (h : p.Alike q) : q.Alike p where
  order_eq := h.order_eq.symm
  size_ops := h.size_ops.symm
  size_values := h.size_values.symm
  op?_eq op := (h.op?_eq op).symm
  value?_eq v := (h.value?_eq v).symm

theorem exists_op (h : p.Alike q) {op : OpId} {o : Operation} (ho : q.op? op = some o) :
    ∃ o', p.op? op = some o' ∧ o.kind = o'.kind ∧ o.operands = o'.operands ∧ o.results = o'.results := by
  have hmap := h.op?_eq op
  rw [ho, Option.map_some] at hmap
  obtain ⟨o', ho', heq⟩ := Option.map_eq_some_iff.1 hmap.symm
  obtain ⟨hkind, hrest⟩ := Prod.mk.inj heq
  obtain ⟨hoperands, hresults⟩ := Prod.mk.inj hrest
  exact ⟨o', ho', hkind.symm, hoperands.symm, hresults.symm⟩

theorem exists_value (h : p.Alike q) {v : ValueId} {x : Value} (hx : q.value? v = some x) :
    ∃ x', p.value? v = some x' ∧ x'.origin = x.origin := by
  have hmap := h.value?_eq v
  rw [hx, Option.map_some] at hmap
  exact Option.map_eq_some_iff.1 hmap.symm

theorem moveCursor (p : Program) (cursor : Option Nat) : p.Alike { p with cursor } :=
  ⟨rfl, rfl, rfl, fun _ => rfl, fun _ => rfl⟩

theorem setOp {op : OpId} {f : Operation → Operation}
    (hf : ∀ o, ((f o).kind, (f o).operands, (f o).results) = (o.kind, o.operands, o.results))
    (h : p.setOp op f = .ok q) : p.Alike q := by
  have hop := op?_setOp h
  obtain ⟨o, ho, rfl⟩ := setOp_eq_ok h
  refine ⟨rfl, by simp, rfl, fun id => ?_, fun v => rfl⟩
  rw [hop]
  split
  · rename_i hid
    rw [hid, ho, Option.map_some, Option.map_some, Option.map_some, hf]
  · rfl

theorem setType {v : ValueId} {type : TensorType} (h : p.setType v type = .ok q) : p.Alike q := by
  obtain ⟨x, hx, rfl⟩ := setType_eq_ok h
  refine ⟨rfl, rfl, by simp, fun op => rfl, fun u => ?_⟩
  have hlt := lt_of_value?_eq_some hx
  unfold value? at hx ⊢
  rw [Array.getElem?_setIfInBounds]
  by_cases huv : v.index = u.index
  · rw [if_pos huv, if_pos (huv ▸ hlt), ← huv, hx]
    rfl
  · rw [if_neg huv]

end Alike

theorem Coherent.alike {p q : Program} (h : p.Coherent) (hq : p.Alike q) (hcursor : q.CursorInside) : q.Coherent := by
  constructor
  case nodup_order => exact hq.order_eq ▸ h.nodup_order
  case mem_order_iff =>
    intro op
    rw [hq.order_eq, h.mem_order_iff]
    constructor
    · rintro ⟨o, ho⟩
      obtain ⟨o', ho', -⟩ := hq.symm.exists_op ho
      exact ⟨o', ho'⟩
    · rintro ⟨o, ho⟩
      obtain ⟨o', ho', -⟩ := hq.exists_op ho
      exact ⟨o', ho'⟩
  case cursorInside => exact hcursor
  case origin_lt =>
    intro v x op i hx ho
    obtain ⟨x', hx', hxo⟩ := hq.exists_value hx
    exact hq.size_ops ▸ h.origin_lt v x' op i hx' (hxo.trans ho)
  case result_of_origin =>
    intro v x op i o hx ho hop
    obtain ⟨x', hx', hxo⟩ := hq.exists_value hx
    obtain ⟨o', ho', -, -, hres⟩ := hq.exists_op hop
    exact hres ▸ h.result_of_origin v x' op i o' hx' (hxo.trans ho) ho'
  case origin_of_result =>
    intro op o i v hop hv
    obtain ⟨o', ho', -, -, hres⟩ := hq.exists_op hop
    obtain ⟨x', hx', hxo⟩ := h.origin_of_result op o' i v ho' (hres ▸ hv)
    obtain ⟨x, hx, hxx⟩ := hq.symm.exists_value hx'
    exact ⟨x, hx, hxx.trans hxo⟩
  case operand_lt =>
    intro op o v hop hv
    obtain ⟨o', ho', -, hopd, -⟩ := hq.exists_op hop
    exact hq.size_values ▸ h.operand_lt op o' v ho' (hopd ▸ hv)
  case operand_lt_result =>
    intro op o v r hop hv hr
    obtain ⟨o', ho', -, hopd, hres⟩ := hq.exists_op hop
    exact h.operand_lt_result op o' v r ho' (hopd ▸ hv) (hres ▸ hr)
  case definer_lt =>
    intro op o v x definer i hop hv hx ho
    obtain ⟨o', ho', -, hopd, -⟩ := hq.exists_op hop
    obtain ⟨x', hx', hxo⟩ := hq.exists_value hx
    exact h.definer_lt op o' v x' definer i ho' (hopd ▸ hv) hx' (hxo.trans ho)

theorem Coherent.mem_live_iff {p : Program} (h : p.Coherent) {op : OpId} {o : Operation} :
    (op, o) ∈ p.live ↔ p.op? op = some o := by
  rw [Program.mem_live_iff, h.mem_order_iff]
  exact ⟨fun hx => hx.2, fun hx => ⟨⟨o, hx⟩, hx⟩⟩

/-! ### Removing an operation -/

/-- An operation that is left can be removed once its results have no users. -/
theorem Coherent.exists_remove {p : Program} (h : p.Coherent) {op : OpId} {o : Operation} (ho : p.op? op = some o)
    (hv : ∀ v ∈ o.results, p.hasUsers v = false) : ∃ q, p.remove op = .ok (o, q) := by
  obtain ⟨i, hi⟩ := Option.isSome_iff_exists.1 (List.isSome_idxOf?.2 ((h.mem_order_iff op).2 ⟨o, ho⟩))
  have hnone : o.results.find? p.hasUsers = none := List.find?_eq_none.2 fun v hm => by simp [hv v hm]
  unfold remove position Program.op
  rw [hi, ho]
  simp only [hnone]
  exact ⟨_, rfl⟩

namespace Coherent

variable {p q : Program} {op : OpId} {o : Operation}

theorem order_remove (hp : p.Coherent) (h : p.remove op = .ok (o, q)) : q.order = p.order.filter (· ≠ op) := by
  obtain ⟨i, hi, -, -, rfl⟩ := remove_eq_ok h
  have herase : p.order.erase op = p.order.eraseIdx i := by rw [List.erase_eq_eraseIdx, hi]
  show p.order.eraseIdx i = _
  rw [← herase, hp.nodup_order.erase_eq_filter]
  exact List.filter_congr fun x _ => by rw [Bool.eq_iff_iff, bne_iff_ne, decide_eq_true_eq]

theorem live_remove (hp : p.Coherent) (h : p.remove op = .ok (o, q)) : q.live = p.live.filter fun u => u.1 ≠ op := by
  unfold live
  rw [hp.order_remove h, List.filterMap_filter, List.filter_filterMap]
  apply List.filterMap_congr
  intro id _
  rw [op?_remove h]
  by_cases hid : id = op
  · subst hid
    cases p.op? id <;> simp [Option.filter]
  · cases p.op? id <;> simp [Option.filter, hid]

theorem remove (hp : p.Coherent) (h : p.remove op = .ok (o, q)) : q.Coherent := by
  have horder := hp.order_remove h
  have hop : ∀ id o', q.op? id = some o' → p.op? id = some o' := fun _ _ => op?_of_remove h
  have hvalue := value?_remove h
  constructor
  case nodup_order =>
    rw [horder]
    exact hp.nodup_order.filter _
  case mem_order_iff =>
    intro id
    rw [horder, List.mem_filter, hp.mem_order_iff, op?_remove h]
    by_cases hid : id = op <;> simp [hid]
  case cursorInside =>
    obtain ⟨i, hi, -, -, rfl⟩ := remove_eq_ok h
    obtain ⟨hlt, -⟩ := List.idxOf?_eq_some_iff.1 hi
    intro c hc
    obtain ⟨c', hc', rfl⟩ := Option.map_eq_some_iff.1 hc
    have hle := hp.cursorInside c' hc'
    simp only [List.length_eraseIdx, hlt, ↓reduceIte]
    split <;> omega
  case origin_lt =>
    intro v x id i hx ho
    rw [hvalue] at hx
    exact size_ops_remove h ▸ hp.origin_lt v x id i hx ho
  case result_of_origin =>
    intro v x id i o' hx ho hid
    rw [hvalue] at hx
    exact hp.result_of_origin v x id i o' hx ho (hop id o' hid)
  case origin_of_result =>
    intro id o' i v hid hv
    rw [hvalue]
    exact hp.origin_of_result id o' i v (hop id o' hid) hv
  case operand_lt =>
    intro id o' v hid hv
    rw [values_remove h]
    exact hp.operand_lt id o' v (hop id o' hid) hv
  case operand_lt_result => exact fun id o' v r hid => hp.operand_lt_result id o' v r (hop id o' hid)
  case definer_lt =>
    intro id o' v x definer i hid hv hx ho
    rw [hvalue] at hx
    exact hp.definer_lt id o' v x definer i (hop id o' hid) hv hx ho

end Coherent

end Program

end CrossMesh
