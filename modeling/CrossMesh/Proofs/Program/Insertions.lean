import CrossMesh.Proofs.Program.Coherent

/-!
# Several insertions in a row

Drafts that are inserted one after the other without moving the insertion point become a block of operations: they
stand together at the insertion point, in the order of their insertion and with consecutive ids, and everything else
stays as it was (`Coherent.live_placeAll`).
-/

namespace CrossMesh

namespace Program

/-- Inserts drafts one after the other. -/
def placeAll (p : Program) (ds : List Draft) : Program := ds.foldl place p

/-- Each draft uses only values that are there when its turn comes. -/
def Accepts (p : Program) : List Draft → Prop
  | [] => True
  | d :: ds => p.Known d ∧ (p.place d).Accepts ds

/-- The operations that drafts become when they are inserted one after the other. -/
def placed (p : Program) : List Draft → List (OpId × Operation)
  | [] => []
  | d :: ds => (p.nextOp, p.draftOperation d) :: (p.place d).placed ds

/-- The operations of a list of ids that are left. -/
def pick (p : Program) (ids : List OpId) : List (OpId × Operation) :=
  ids.filterMap fun id => (p.op? id).map fun o => (id, o)

/-- The operations that are left of those numbered from `first` up to but not including `stop`. -/
def liveBetween (p : Program) (first stop : Nat) : List (OpId × Operation) :=
  p.live.filter fun u => first ≤ u.1.index ∧ u.1.index < stop

theorem placeAll_append (p : Program) (ds es : List Draft) : p.placeAll (ds ++ es) = (p.placeAll ds).placeAll es :=
  List.foldl_append

theorem Known.place {p : Program} {d : Draft} (h : p.Known d) (e : Draft) : (p.place e).Known d := by
  intro v hv
  rw [size_values_place]
  exact Nat.lt_add_right _ (h v hv)

/-- Drafts that use only values of the program can be inserted one after the other. -/
theorem accepts_of_known {p : Program} {ds : List Draft} (h : ∀ d ∈ ds, p.Known d) : p.Accepts ds := by
  induction ds generalizing p with
  | nil => trivial
  | cons d ds ih =>
    obtain ⟨hd, hds⟩ := List.forall_mem_cons.1 h
    exact ⟨hd, ih fun e he => (hds e he).place d⟩

theorem accepts_append {p : Program} {ds es : List Draft} :
    p.Accepts (ds ++ es) ↔ p.Accepts ds ∧ (p.placeAll ds).Accepts es := by
  induction ds generalizing p with
  | nil => simp [Accepts, placeAll]
  | cons d ds ih =>
    show p.Known d ∧ (p.place d).Accepts (ds ++ es) ↔ _
    rw [ih]
    exact and_assoc.symm

theorem placed_append (p : Program) (ds es : List Draft) :
    p.placed (ds ++ es) = p.placed ds ++ (p.placeAll ds).placed es := by
  induction ds generalizing p with
  | nil => rfl
  | cons d ds ih => exact congrArg (List.cons _) (ih (p.place d))

theorem size_ops_placeAll (p : Program) (ds : List Draft) : (p.placeAll ds).ops.size = p.ops.size + ds.length := by
  induction ds generalizing p with
  | nil => rfl
  | cons d ds ih =>
    show ((p.place d).placeAll ds).ops.size = _
    rw [ih, size_ops_place, List.length_cons]
    omega

theorem size_values_placeAll (p : Program) (ds : List Draft) :
    (p.placeAll ds).values.size = p.values.size + (ds.flatMap fun d => d.types).length := by
  induction ds generalizing p with
  | nil => rfl
  | cons d ds ih =>
    show ((p.place d).placeAll ds).values.size = _
    rw [ih, size_values_place, List.flatMap_cons, List.length_append, Nat.add_assoc]

theorem op?_placeAll_old {p : Program} (ds : List Draft) {op : OpId} (h : op.index < p.ops.size) :
    (p.placeAll ds).op? op = p.op? op := by
  induction ds generalizing p with
  | nil => rfl
  | cons d ds ih =>
    show ((p.place d).placeAll ds).op? op = _
    rw [ih (by rw [size_ops_place]; omega), op?_place_old d h]

theorem value?_placeAll_old {p : Program} (ds : List Draft) {v : ValueId} (h : v.index < p.values.size) :
    (p.placeAll ds).value? v = p.value? v := by
  induction ds generalizing p with
  | nil => rfl
  | cons d ds ih =>
    show ((p.place d).placeAll ds).value? v = _
    rw [ih (by rw [size_values_place]; omega), value?_place_old d h]

theorem Available.placeAll {p : Program} {v : ValueId} (h : p.Available v) (ds : List Draft) :
    (p.placeAll ds).Available v := by
  obtain ⟨x, hx, horigin⟩ := h
  refine ⟨x, by rw [value?_placeAll_old ds (lt_of_value?_eq_some hx)]; exact hx, fun op i ho => ?_⟩
  obtain ⟨o, hop⟩ := horigin op i ho
  exact ⟨o, by rw [op?_placeAll_old ds (lt_of_op?_eq_some hop)]; exact hop⟩

/-- The ids of inserted operations continue those of the program. -/
theorem index_of_mem_placed {p : Program} {ds : List Draft} {u : OpId × Operation} (h : u ∈ p.placed ds) :
    p.ops.size ≤ u.1.index ∧ u.1.index < p.ops.size + ds.length := by
  induction ds generalizing p with
  | nil => exact absurd h List.not_mem_nil
  | cons d ds ih =>
    rw [List.length_cons]
    rcases List.mem_cons.1 h with rfl | h
    · exact ⟨Nat.le_refl _, by show p.ops.size < _; omega⟩
    · have := ih h
      rw [size_ops_place] at this
      omega

/-- An inserted operation uses what its draft does. -/
theorem exists_draft_of_mem_placed {p : Program} {ds : List Draft} {u : OpId × Operation} (h : u ∈ p.placed ds) :
    ∃ d ∈ ds, u.2.operands = d.operands := by
  induction ds generalizing p with
  | nil => exact absurd h List.not_mem_nil
  | cons d ds ih =>
    rcases List.mem_cons.1 h with rfl | h
    · exact ⟨d, List.mem_cons_self, rfl⟩
    · obtain ⟨e, he, hoperands⟩ := ih h
      exact ⟨e, List.mem_cons_of_mem _ he, hoperands⟩

theorem pick_append (p : Program) (ids ids' : List OpId) : p.pick (ids ++ ids') = p.pick ids ++ p.pick ids' :=
  List.filterMap_append

/-- What is left stands before the insertion point or behind it. -/
theorem live_eq_pick (p : Program) : p.live = p.pick p.left ++ p.pick p.right := by
  rw [← pick_append, left_append_right]
  rfl

theorem pick_congr {p q : Program} {ids : List OpId} (h : ∀ id ∈ ids, q.op? id = p.op? id) :
    q.pick ids = p.pick ids :=
  List.filterMap_congr fun id hid => by rw [h id hid]

theorem fst_mem_of_mem_pick {p : Program} {ids : List OpId} {u : OpId × Operation} (h : u ∈ p.pick ids) :
    u.1 ∈ ids := by
  obtain ⟨id, hid, hu⟩ := List.mem_filterMap.1 h
  obtain ⟨o, -, rfl⟩ := Option.map_eq_some_iff.1 hu
  exact hid

namespace Coherent

variable {p : Program}

theorem placeAll (h : p.Coherent) {ds : List Draft} (hds : p.Accepts ds) : (p.placeAll ds).Coherent := by
  induction ds generalizing p with
  | nil => exact h
  | cons d ds ih => exact ih (h.place hds.1) hds.2

theorem index_lt_of_mem_left (h : p.Coherent) {op : OpId} (hop : op ∈ p.left) : op.index < p.ops.size :=
  h.lt_of_mem_order (List.mem_of_mem_take hop)

theorem index_lt_of_mem_right (h : p.Coherent) {op : OpId} (hop : op ∈ p.right) : op.index < p.ops.size :=
  h.lt_of_mem_order (List.mem_of_mem_drop hop)

/-- An insertion puts the operation at the end of what stands before the insertion point. -/
theorem pick_left_place (h : p.Coherent) (d : Draft) :
    (p.place d).pick (p.place d).left = p.pick p.left ++ [(p.nextOp, p.draftOperation d)] := by
  have hold : (p.place d).pick p.left = p.pick p.left :=
    pick_congr fun id hid => op?_place_old d (h.index_lt_of_mem_left hid)
  have hnew : (p.place d).pick [p.nextOp] = [(p.nextOp, p.draftOperation d)] := by
    simp [pick, op?_place_nextOp]
  rw [left_place h.cursorInside, pick_append, hold, hnew]

/-- An insertion leaves what stands behind the insertion point as it was. -/
theorem pick_right_place (h : p.Coherent) (d : Draft) : (p.place d).pick (p.place d).right = p.pick p.right := by
  rw [right_place h.cursorInside]
  exact pick_congr fun id hid => op?_place_old d (h.index_lt_of_mem_right hid)

/-- Inserted drafts are a block of operations at the insertion point. -/
theorem live_placeAll (h : p.Coherent) {ds : List Draft} (hds : p.Accepts ds) :
    (p.placeAll ds).live = p.pick p.left ++ p.placed ds ++ p.pick p.right := by
  induction ds generalizing p with
  | nil =>
    rw [placed, List.append_nil]
    exact p.live_eq_pick
  | cons d ds ih =>
    -- The first draft ends the part before the insertion point, where the rest is inserted.
    show ((p.place d).placeAll ds).live = _
    rw [ih (h.place hds.1) hds.2, h.pick_left_place, h.pick_right_place]
    simp [placed]

theorem op?_of_mem_placed (h : p.Coherent) {ds : List Draft} (hds : p.Accepts ds) {u : OpId × Operation}
    (hu : u ∈ p.placed ds) : (p.placeAll ds).op? u.1 = some u.2 := by
  have hlive : u ∈ (p.placeAll ds).live := by
    rw [h.live_placeAll hds]
    exact List.mem_append_left _ (List.mem_append_right _ hu)
  exact (h.placeAll hds).mem_live_iff.1 hlive

/-- The new operations after several insertions are those of the drafts. -/
theorem liveBetween_placeAll (h : p.Coherent) {ds : List Draft} (hds : p.Accepts ds) :
    (p.placeAll ds).liveBetween p.ops.size (p.placeAll ds).ops.size = p.placed ds := by
  have hold : ∀ ids : List OpId, (∀ id ∈ ids, id.index < p.ops.size) →
      (p.pick ids).filter (fun u => p.ops.size ≤ u.1.index ∧ u.1.index < p.ops.size + ds.length) = [] := by
    intro ids hids
    apply List.filter_eq_nil_iff.2
    intro u hu
    have := hids u.1 (fst_mem_of_mem_pick hu)
    simp
    omega
  have hnew : (p.placed ds).filter (fun u => p.ops.size ≤ u.1.index ∧ u.1.index < p.ops.size + ds.length) =
      p.placed ds :=
    List.filter_eq_self.2 fun u hu => by simpa using index_of_mem_placed hu
  rw [liveBetween, h.live_placeAll hds, size_ops_placeAll, List.filter_append, List.filter_append, hnew,
    hold _ fun id => h.index_lt_of_mem_left, hold _ fun id => h.index_lt_of_mem_right]
  simp

end Coherent

end Program

end CrossMesh
