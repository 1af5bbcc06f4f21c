import CrossMesh.Proofs.Program.Later

/-!
# The tables of a program over a run

Whatever calls are made on a program, from the empty program on, its tables fit together (`Coherent`), and the numbers
of its operations and values are those issued so far: each call continues the numbers of the calls before it, and a
number goes on meaning what it was issued for (`run_tables`).  A call that fails changes nothing.
-/

namespace CrossMesh

namespace Program

/-! ### What a call issues -/

/-- The operations that a call inserts: those in the execution order after it that were not there before. -/
def newOps (p : Program) (a : Action) : List OpId := (p.act a).order.filter (· ∉ p.order)

def resultsOf (p : Program) (op : OpId) : List ValueId := ((p.op? op).map Operation.results).getD []

/-- The values that a call makes: an input, or the results of the operations it inserts. -/
def newValues (p : Program) : Action → List ValueId
  | .addInput _ _ => [p.nextValue]
  | a => (p.newOps a).flatMap (p.act a).resultsOf

/-- The operations that several calls insert, in the order of the calls. -/
def issuedOps (p : Program) : List Action → List OpId
  | [] => []
  | a :: actions => p.newOps a ++ (p.act a).issuedOps actions

/-- The values that several calls make, in the order of the calls. -/
def issuedValues (p : Program) : List Action → List ValueId
  | [] => []
  | a :: actions => p.newValues a ++ (p.act a).issuedValues actions

theorem newValues_of_not_input {p : Program} {a : Action} (h : ¬∃ type placement, a = .addInput type placement) :
    p.newValues a = (p.newOps a).flatMap (p.act a).resultsOf := by
  cases a with
  | addInput type placement => exact absurd ⟨type, placement, rfl⟩ h
  | _ => rfl

/-- A call that adds no operation to the execution order inserts none. -/
theorem newOps_eq_nil {p : Program} {a : Action} (h : ∀ op ∈ (p.act a).order, op ∈ p.order) : p.newOps a = [] :=
  List.filter_eq_nil_iff.2 fun op hop => by simpa using h op hop

theorem map_index_placed (p : Program) (ds : List Draft) :
    ((p.placed ds).map Prod.fst).map OpId.index = List.range' p.ops.size ds.length := by
  induction ds generalizing p with
  | nil => rfl
  | cons d ds ih =>
    show p.ops.size :: (((p.place d).placed ds).map Prod.fst).map OpId.index = _
    rw [ih, size_ops_place, List.length_cons, List.range'_succ]

theorem map_index_draftResults (p : Program) (d : Draft) :
    (p.draftResults d).map ValueId.index = List.range' p.values.size d.types.length := by
  rw [draftResults, List.map_map, List.range'_eq_map_range]
  rfl

theorem map_index_results_placed (p : Program) (ds : List Draft) :
    ((p.placed ds).flatMap fun u => u.2.results).map ValueId.index =
      List.range' p.values.size (ds.flatMap fun d => d.types).length := by
  induction ds generalizing p with
  | nil => rfl
  | cons d ds ih =>
    show (p.draftResults d ++ ((p.place d).placed ds).flatMap fun u => u.2.results).map ValueId.index = _
    rw [List.map_append, ih, map_index_draftResults, size_values_place, List.flatMap_cons, List.length_append,
      List.range'_append_1]

namespace Coherent

variable {p q : Program}

theorem order_placeAll (h : p.Coherent) {ds : List Draft} (hds : p.Accepts ds) :
    (p.placeAll ds).order =
      (p.pick p.left).map Prod.fst ++ (p.placed ds).map Prod.fst ++ (p.pick p.right).map Prod.fst := by
  rw [← (h.placeAll hds).map_fst_live, h.live_placeAll hds, List.map_append, List.map_append]

/-- Of the operations after some insertions, those that were not there before are the inserted ones. -/
theorem filter_order_placeAll (h : p.Coherent) {ds : List Draft} (hds : p.Accepts ds) :
    (p.placeAll ds).order.filter (· ∉ p.order) = (p.placed ds).map Prod.fst := by
  have hold : ∀ ids : List OpId, (∀ id ∈ ids, id ∈ p.order) →
      ((p.pick ids).map Prod.fst).filter (· ∉ p.order) = [] := by
    intro ids hids
    refine List.filter_eq_nil_iff.2 fun op hop => ?_
    obtain ⟨u, hu, rfl⟩ := List.mem_map.1 hop
    simpa using hids u.1 (fst_mem_of_mem_pick hu)
  have hnew : ((p.placed ds).map Prod.fst).filter (· ∉ p.order) = (p.placed ds).map Prod.fst := by
    refine List.filter_eq_self.2 fun op hop => decide_eq_true fun hmem => ?_
    obtain ⟨u, hu, rfl⟩ := List.mem_map.1 hop
    exact Nat.not_lt.2 (index_of_mem_placed hu).1 (h.lt_of_mem_order hmem)
  rw [h.order_placeAll hds, List.filter_append, List.filter_append, hnew, hold p.left fun id => List.mem_of_mem_take,
    hold p.right fun id => List.mem_of_mem_drop, List.nil_append, List.append_nil]

/-- A call that inserts drafts inserts what they become. -/
theorem newOps_of_placeAll (h : p.Coherent) {a : Action} {ds : List Draft} (hds : ∀ d ∈ ds, p.Known d)
    (heq : p.act a = p.placeAll ds) : p.newOps a = (p.placed ds).map Prod.fst := by
  rw [newOps, heq, h.filter_order_placeAll (accepts_of_known hds)]

/-- The results of inserted operations are those of the drafts. -/
theorem flatMap_resultsOf_placed (h : p.Coherent) {ds : List Draft} (hds : p.Accepts ds) :
    ((p.placed ds).map Prod.fst).flatMap (p.placeAll ds).resultsOf = (p.placed ds).flatMap fun u => u.2.results := by
  rw [List.flatMap_map]
  refine List.flatMap_congr fun u hu => ?_
  rw [resultsOf, h.op?_of_mem_placed hds hu]
  rfl

theorem size_ops_removeAll {ops : List OpId} {removed : List (OpId × Operation)}
    (h : p.removeAll ops = .ok (removed, q)) : q.ops.size = p.ops.size := by
  induction ops generalizing p removed with
  | nil =>
    obtain ⟨-, rfl⟩ := Prod.mk.inj (Except.ok.inj h)
    rfl
  | cons op ops ih =>
    obtain ⟨o, r, more, hrem, hall, -⟩ := removeAll_cons_eq_ok h
    rw [ih hall, size_ops_remove hrem]

theorem order_subset_of_removeAll (h : p.Coherent) {ops : List OpId} {removed : List (OpId × Operation)}
    (hall : p.removeAll ops = .ok (removed, q)) : ∀ op ∈ q.order, op ∈ p.order := by
  have hcleared := Cleared.of_removeAll h hall
  intro op hop
  rw [← hcleared.coherent.map_fst_live] at hop
  obtain ⟨u, hu, rfl⟩ := List.mem_map.1 hop
  exact (Program.mem_live_iff.1 (hcleared.mem_iff.1 hu).1).1

/-- A call either inserts drafts that use values of the program, or leaves the table of operations as long as it is
and, unless it adds an input, the table of values too. -/
theorem newOps_cases (h : p.Coherent) (a : Action) :
    (∃ ds, (∀ d ∈ ds, p.Known d) ∧ p.act a = p.placeAll ds ∧ p.newOps a = (p.placed ds).map Prod.fst) ∨
      p.newOps a = [] ∧ (p.act a).ops.size = p.ops.size ∧
        ((∃ type placement, a = .addInput type placement) ∨ (p.act a).values.size = p.values.size) := by
  rcases act_cases h a with ⟨type, placement, rfl⟩ | ⟨ds, hds, heq⟩ | ⟨ops, removed, hall⟩ | ⟨halike, -⟩
  · exact .inr ⟨newOps_eq_nil fun op hop => hop, rfl, .inl ⟨type, placement, rfl⟩⟩
  · exact .inl ⟨ds, hds, heq, h.newOps_of_placeAll hds heq⟩
  · have hvalues : (p.act a).values.size = p.values.size := congrArg Array.size (Cleared.of_removeAll h hall).values
    exact .inr ⟨newOps_eq_nil (h.order_subset_of_removeAll hall), size_ops_removeAll hall, .inr hvalues⟩
  · exact .inr ⟨newOps_eq_nil fun op hop => halike.order_eq ▸ hop, halike.size_ops, .inr halike.size_values⟩

/-- A call issues the numbers that follow those issued so far. -/
theorem map_index_newOps (h : p.Coherent) (a : Action) :
    (p.newOps a).map OpId.index = List.range' p.ops.size ((p.act a).ops.size - p.ops.size) := by
  rcases h.newOps_cases a with ⟨ds, -, heq, hnew⟩ | ⟨hnone, hsize, -⟩
  · rw [hnew, map_index_placed, heq, size_ops_placeAll, Nat.add_sub_cancel_left]
  · rw [hnone, hsize, Nat.sub_self]
    rfl

/-- A call numbers the values it makes after those made so far. -/
theorem map_index_newValues (h : p.Coherent) (a : Action) :
    (p.newValues a).map ValueId.index = List.range' p.values.size ((p.act a).values.size - p.values.size) := by
  by_cases ha : ∃ type placement, a = .addInput type placement
  · obtain ⟨type, placement, rfl⟩ := ha
    have hsize : (p.act (.addInput type placement)).values.size = p.values.size + 1 := Array.size_push ..
    rw [hsize, Nat.add_sub_cancel_left]
    rfl
  · rw [newValues_of_not_input ha]
    rcases h.newOps_cases a with ⟨ds, hds, heq, hnew⟩ | ⟨hnone, -, hinput | hsize⟩
    · rw [hnew, heq, h.flatMap_resultsOf_placed (accepts_of_known hds), map_index_results_placed, size_values_placeAll,
        Nat.add_sub_cancel_left]
    · exact absurd hinput ha
    · rw [hnone, hsize, Nat.sub_self]
      rfl

/-! ### What a run issues -/

private theorem range'_append_range' {a b c : Nat} (hab : a ≤ b) (hbc : b ≤ c) :
    List.range' a (b - a) ++ List.range' b (c - b) = List.range' a (c - a) := by
  obtain ⟨m, rfl⟩ := Nat.exists_eq_add_of_le hab
  obtain ⟨n, rfl⟩ := Nat.exists_eq_add_of_le hbc
  rw [Nat.add_sub_cancel_left, Nat.add_sub_cancel_left, Nat.add_assoc, Nat.add_sub_cancel_left, List.range'_append_1]

theorem map_index_issuedOps (h : p.Coherent) (actions : List Action) :
    (p.issuedOps actions).map OpId.index = List.range' p.ops.size ((p.run actions).ops.size - p.ops.size) := by
  induction actions generalizing p with
  | nil =>
    show [] = List.range' p.ops.size (p.ops.size - p.ops.size)
    rw [Nat.sub_self]
    rfl
  | cons a actions ih =>
    show (p.newOps a ++ (p.act a).issuedOps actions).map OpId.index =
      List.range' _ (((p.act a).run actions).ops.size - _)
    rw [List.map_append, h.map_index_newOps, ih (h.act a)]
    exact range'_append_range' (Later.act h a).size_ops_le (Later.run (h.act a) actions).size_ops_le

theorem map_index_issuedValues (h : p.Coherent) (actions : List Action) :
    (p.issuedValues actions).map ValueId.index =
      List.range' p.values.size ((p.run actions).values.size - p.values.size) := by
  induction actions generalizing p with
  | nil =>
    show [] = List.range' p.values.size (p.values.size - p.values.size)
    rw [Nat.sub_self]
    rfl
  | cons a actions ih =>
    show (p.newValues a ++ (p.act a).issuedValues actions).map ValueId.index =
      List.range' _ (((p.act a).run actions).values.size - _)
    rw [List.map_append, h.map_index_newValues, ih (h.act a)]
    exact range'_append_range' (Later.act h a).size_values_le (Later.run (h.act a) actions).size_values_le

/-- A result has one operation. -/
theorem disjoint_results (h : p.Coherent) {a b : OpId} {o u : Operation} (hab : a ≠ b) (ha : p.op? a = some o)
    (hb : p.op? b = some u) : o.results.Disjoint u.results := by
  intro v hv hv'
  obtain ⟨i, hi⟩ := List.mem_iff_getElem?.1 hv
  obtain ⟨j, hj⟩ := List.mem_iff_getElem?.1 hv'
  obtain ⟨x, hx, horigin⟩ := h.origin_of_result a o i v ha hi
  obtain ⟨y, hy, horigin'⟩ := h.origin_of_result b u j v hb hj
  obtain rfl := Option.some.inj (hx.symm.trans hy)
  exact hab (Origin.result.inj (horigin.symm.trans horigin')).1

end Coherent

/-! ### Calls that fail -/

/-- The call answers with an error. -/
def Fails (p : Program) : Action → Prop
  | .addInput _ _ => False
  | .insert d => ∃ e, p.insert d = .error e
  | .before op => ∃ e, p.before op = .error e
  | .after op => ∃ e, p.after op = .error e
  | .atEnd => False
  | .remove op => ∃ e, p.remove op = .error e
  | .setPlacement op placement => ∃ e, p.setPlacement op placement = .error e
  | .setStream op stream => ∃ e, p.setStream op stream = .error e
  | .setType v type => ∃ e, p.setType v type = .error e
  | .relocate groups rank config m =>
    ∃ e, (({ program := p, groups } : Worker).relocate rank config m).1 = .error e
  | .prune rank => ∃ e, (({ program := p } : Worker).prune rank).1 = .error e

theorem act_of_fails {p : Program} {a : Action} (h : p.Fails a) : p.act a = p := by
  cases a with
  | addInput | atEnd => exact absurd h id
  | insert | before | after | remove | setPlacement | setStream | setType =>
    obtain ⟨e, he⟩ := h
    simp only [act, he]
    rfl
  | relocate groups rank config m =>
    obtain ⟨e, he⟩ := h
    exact (Worker.relocate_eq_error (Prod.ext he rfl)).1
  | prune rank =>
    obtain ⟨e, he⟩ := h
    unfold Worker.prune at he
    show (Worker.prune { program := p } rank).2.program = p
    unfold Worker.prune
    cases hprune : p.prune rank with
    | error e' => rfl
    | ok r => simp [hprune] at he

/-! ### The tables after any run -/

/-- After any calls the tables of the program fit together: the execution order lists the operations that are left, each
once, and the insertion point lies within it; values and the results of operations name each other; operations use
older values.  The numbers were issued one after the other, each once, and go on meaning the same.  A call that fails
leaves the program as it is. -/
theorem run_tables (actions : List Action) :
    (run {} actions).Coherent ∧
      (run {} actions).live.map Prod.fst = (run {} actions).order ∧
      (run {} actions).numOps = (run {} actions).live.length ∧
      (∀ a b o u, a ≠ b → (run {} actions).op? a = some o → (run {} actions).op? b = some u →
        o.results.Disjoint u.results) ∧
      (issuedOps {} actions).map OpId.index = List.range (run {} actions).ops.size ∧
      (issuedValues {} actions).map ValueId.index = List.range (run {} actions).values.size ∧
      (∀ more, (run {} actions).Later ((run {} actions).run more)) ∧
      ∀ a, (run {} actions).Fails a → (run {} actions).act a = run {} actions := by
  have hp : (run {} actions).Coherent := coherent_empty.run actions
  refine ⟨hp, hp.map_fst_live, ?_, fun a b o u hab => hp.disjoint_results hab, ?_, ?_, fun more => Later.run hp more,
    fun a => act_of_fails⟩
  · rw [numOps, ← hp.map_fst_live, List.length_map]
  · rw [coherent_empty.map_index_issuedOps, List.range_eq_range']
    rfl
  · rw [coherent_empty.map_index_issuedValues, List.range_eq_range']
    rfl

end Program

end CrossMesh
