import CrossMesh.Proofs.Program.Reachable

/-!
# What later programs keep

The number of an operation or of a value is given once.  However a program is changed, what is left under a number is
what was made under it: an operation of the same kind with the same operands and results, a value of the same origin
(`Later.run`).  A value that an operation uses stays available as long as the operation is left, since no call takes
its definer away.
-/

namespace CrossMesh

namespace Program

/-- The program `q` keeps the numbers of `p`. -/
structure Later (p q : Program) : Prop where
  size_ops_le : p.ops.size ≤ q.ops.size
  size_values_le : p.values.size ≤ q.values.size
  /-- What is left under an old number was there before, though its placement and stream may have changed. -/
  exists_op : ∀ op o, op.index < p.ops.size → q.op? op = some o →
    ∃ o', p.op? op = some o' ∧ o.kind = o'.kind ∧ o.operands = o'.operands ∧ o.results = o'.results
  /-- A value stays and comes from where it came from, though its type may have changed. -/
  exists_value : ∀ v x, p.value? v = some x → ∃ x', q.value? v = some x' ∧ x'.origin = x.origin
  /-- The operands of an old operation that is left stay available. -/
  available : ∀ op o v, op.index < p.ops.size → q.op? op = some o → v ∈ o.operands → p.Available v → q.Available v

namespace Later

variable {p q r : Program}

theorem refl (p : Program) : p.Later p where
  size_ops_le := Nat.le_refl _
  size_values_le := Nat.le_refl _
  exists_op _ o _ ho := ⟨o, ho, rfl, rfl, rfl⟩
  exists_value _ x hx := ⟨x, hx, rfl⟩
  available _ _ _ _ _ _ hv := hv

theorem trans (h : p.Later q) (h' : q.Later r) : p.Later r where
  size_ops_le := Nat.le_trans h.size_ops_le h'.size_ops_le
  size_values_le := Nat.le_trans h.size_values_le h'.size_values_le
  exists_op op o hop ho := by
    obtain ⟨o', ho', hkind, hoperands, hresults⟩ := h'.exists_op op o (Nat.lt_of_lt_of_le hop h.size_ops_le) ho
    obtain ⟨o'', ho'', hkind', hoperands', hresults'⟩ := h.exists_op op o' hop ho'
    exact ⟨o'', ho'', hkind.trans hkind', hoperands.trans hoperands', hresults.trans hresults'⟩
  exists_value v x hx := by
    obtain ⟨x', hx', horigin⟩ := h.exists_value v x hx
    obtain ⟨x'', hx'', horigin'⟩ := h'.exists_value v x' hx'
    exact ⟨x'', hx'', horigin'.trans horigin⟩
  available op o v hop ho hv hp := by
    have hop' := Nat.lt_of_lt_of_le hop h.size_ops_le
    obtain ⟨o', ho', -, hoperands, -⟩ := h'.exists_op op o hop' ho
    exact h'.available op o v hop' ho hv (h.available op o' v hop ho' (hoperands ▸ hv) hp)

/-- A value of `p` that can be used later could be used before: no removed operation comes back. -/
theorem available_of (h : p.Later q) (hp : p.Coherent) {v : ValueId} (hlt : v.index < p.values.size)
    (hv : q.Available v) : p.Available v := by
  obtain ⟨x, hx⟩ : ∃ x, p.value? v = some x := ⟨_, Array.getElem?_eq_getElem hlt⟩
  obtain ⟨x', hx', horigin⟩ := h.exists_value v x hx
  obtain ⟨y, hy, hdefiner⟩ := hv
  obtain rfl := Option.some.inj (hx'.symm.trans hy)
  refine ⟨x, hx, fun op i ho => ?_⟩
  obtain ⟨o, hop⟩ := hdefiner op i (horigin.trans ho)
  obtain ⟨o', ho', -⟩ := h.exists_op op o (hp.origin_lt v x op i hx ho) hop
  exact ⟨o', ho'⟩

/-! ### One call -/

theorem addInput (p : Program) (type : TensorType) (placement : Option Placement) :
    p.Later (p.addInput type placement) where
  size_ops_le := Nat.le_refl _
  size_values_le := by simp [Program.addInput]
  exists_op op o _ ho := ⟨o, ho, rfl, rfl, rfl⟩
  exists_value v x hx := ⟨x, value?_addInput_old type placement hx, rfl⟩
  available op o v _ _ _ hv := by
    obtain ⟨x, hx, hdefiner⟩ := hv
    exact ⟨x, value?_addInput_old type placement hx, hdefiner⟩

theorem placeAll (p : Program) (ds : List Draft) : p.Later (p.placeAll ds) where
  size_ops_le := by
    rw [size_ops_placeAll]
    exact Nat.le_add_right ..
  size_values_le := by
    rw [size_values_placeAll]
    exact Nat.le_add_right ..
  exists_op op o hop ho := by
    rw [op?_placeAll_old ds hop] at ho
    exact ⟨o, ho, rfl, rfl, rfl⟩
  exists_value v x hx := by
    rw [value?_placeAll_old ds (lt_of_value?_eq_some hx)]
    exact ⟨x, hx, rfl⟩
  available op o v _ _ _ hv := hv.placeAll ds

theorem alike (h : p.Alike q) : p.Later q where
  size_ops_le := Nat.le_of_eq h.size_ops.symm
  size_values_le := Nat.le_of_eq h.size_values.symm
  exists_op op o _ ho := h.exists_op ho
  exists_value v x hx := by
    obtain ⟨x', hx', horigin⟩ := h.symm.exists_value hx
    exact ⟨x', hx', horigin⟩
  available op o v _ _ _ hv := by
    obtain ⟨x, hx, hdefiner⟩ := hv
    obtain ⟨x', hx', horigin⟩ := h.symm.exists_value hx
    refine ⟨x', hx', fun d i hd => ?_⟩
    obtain ⟨o', ho'⟩ := hdefiner d i (horigin.symm.trans hd)
    obtain ⟨o'', ho'', -⟩ := h.symm.exists_op ho'
    exact ⟨o'', ho''⟩

/-- A removal takes an operation away that none of the others uses. -/
theorem remove (hp : p.Coherent) {op : OpId} {o : Operation} (h : p.remove op = .ok (o, q)) : p.Later q := by
  obtain ⟨-, -, ho, hunused, -⟩ := remove_eq_ok h
  have hvalue := value?_remove h
  constructor
  case size_ops_le => exact Nat.le_of_eq (size_ops_remove h).symm
  case size_values_le => exact Nat.le_of_eq (congrArg Array.size (values_remove h).symm)
  case exists_op => exact fun id o' _ ho' => ⟨o', op?_of_remove h ho', rfl, rfl, rfl⟩
  case exists_value => exact fun v x hx => ⟨x, (hvalue v).trans hx, rfl⟩
  case available =>
    rintro id o' v - ho' hv ⟨x, hx, hdefiner⟩
    refine ⟨x, (hvalue v).trans hx, fun d i hd => ?_⟩
    rw [op?_remove h]
    split
    · -- Were the definer the removed operation, its result would be used.
      rename_i heq
      subst heq
      have hresult := List.mem_of_getElem? (hp.result_of_origin v x d i o hx hd ho)
      have hused : p.hasUsers v = true := hasUsers_iff.2 ⟨(id, o'), hp.mem_live_iff.2 (op?_of_remove h ho'), hv⟩
      exact absurd (hused.symm.trans (hunused v hresult)) (by simp)
    · exact hdefiner d i hd

theorem removeAll (hp : p.Coherent) {ops : List OpId} {removed : List (OpId × Operation)}
    (h : p.removeAll ops = .ok (removed, q)) : p.Later q := by
  induction ops generalizing p removed with
  | nil =>
    obtain ⟨-, rfl⟩ := Prod.mk.inj (Except.ok.inj h)
    exact refl p
  | cons op ops ih =>
    obtain ⟨o, r, more, hrem, hall, -⟩ := removeAll_cons_eq_ok h
    exact (remove hp hrem).trans (ih (hp.remove hrem) hall)

theorem act (hp : p.Coherent) (a : Action) : p.Later (p.act a) := by
  rcases act_cases hp a with ⟨type, placement, rfl⟩ | ⟨ds, -, heq⟩ | ⟨ops, removed, heq⟩ | ⟨halike, -⟩
  · exact addInput p type placement
  · rw [heq]
    exact placeAll p ds
  · exact removeAll hp heq
  · exact alike halike

/-! ### Many calls -/

theorem run (hp : p.Coherent) (actions : List Action) : p.Later (p.run actions) := by
  induction actions generalizing p with
  | nil => exact refl p
  | cons a actions ih => exact (act hp a).trans (ih (hp.act a))

end Later

end Program

end CrossMesh
