import CrossMesh.Proofs.Program.Reachable

/-!
# Changes that spare some operations

Inserting operations and changing placements takes nothing away: all operations and values of the program stay, and
operations whose own placement is not changed stay as they are and in their order (`Spared.run`).
-/

namespace CrossMesh

namespace Program

/-- The call inserts an operation, or changes the placement of one that is not numbered from `first` up to but not
including `stop`. -/
def Action.Spares (first stop : Nat) : Action → Prop
  | .insert _ => True
  | .setPlacement op _ => ¬(first ≤ op.index ∧ op.index < stop)
  | _ => False

/-- The program `q` has the values of `p`, its operations with perhaps other placements, and those numbered from
`first` up to but not including `stop` as they were. -/
structure Spared (first stop : Nat) (p q : Program) : Prop where
  size_le : p.ops.size ≤ q.ops.size
  value?_eq : ∀ v x, p.value? v = some x → q.value? v = some x
  op?_eq : ∀ op o, p.op? op = some o → ∃ o', q.op? op = some o'
  liveBetween_eq : q.liveBetween first stop = p.liveBetween first stop

namespace Spared

variable {first stop : Nat} {p q r : Program}

theorem available (h : p.Spared first stop q) {v : ValueId} (hv : p.Available v) : q.Available v := by
  obtain ⟨x, hx, horigin⟩ := hv
  refine ⟨x, h.value?_eq v x hx, fun op i ho => ?_⟩
  obtain ⟨o, hop⟩ := horigin op i ho
  exact h.op?_eq op o hop

theorem refl (first stop : Nat) (p : Program) : p.Spared first stop p :=
  ⟨Nat.le_refl _, fun _ _ hx => hx, fun _ o ho => ⟨o, ho⟩, rfl⟩

theorem trans (h : p.Spared first stop q) (h' : q.Spared first stop r) : p.Spared first stop r where
  size_le := Nat.le_trans h.size_le h'.size_le
  value?_eq v x hx := h'.value?_eq v x (h.value?_eq v x hx)
  op?_eq op o ho := by
    obtain ⟨o', ho'⟩ := h.op?_eq op o ho
    exact h'.op?_eq op o' ho'
  liveBetween_eq := h'.liveBetween_eq.trans h.liveBetween_eq

theorem place (hp : p.Coherent) {d : Draft} (hd : p.Known d) (hstop : stop ≤ p.ops.size) :
    p.Spared first stop (p.place d) where
  size_le := by
    rw [size_ops_place]
    exact Nat.le_succ _
  value?_eq v x hx := by
    rw [value?_place_old d (lt_of_value?_eq_some hx)]
    exact hx
  op?_eq op o ho := ⟨o, by rw [op?_place_old d (lt_of_op?_eq_some ho)]; exact ho⟩
  liveBetween_eq := by
    have hnew : (p.placed [d]).filter (fun u => first ≤ u.1.index ∧ u.1.index < stop) = [] := by
      apply List.filter_eq_nil_iff.2
      intro u hu
      have := (index_of_mem_placed hu).1
      simp
      omega
    have haccepts : p.Accepts [d] := ⟨hd, trivial⟩
    have hlive : (p.place d).live = p.pick p.left ++ p.placed [d] ++ p.pick p.right := hp.live_placeAll haccepts
    rw [liveBetween, liveBetween, hlive, p.live_eq_pick, List.filter_append, List.filter_append, List.filter_append, hnew,
      List.append_nil]

theorem setPlacement {op : OpId} {placement : OpPlacement} (hop : ¬(first ≤ op.index ∧ op.index < stop))
    (h : p.setPlacement op placement = .ok q) : p.Spared first stop q := by
  have hlookup := op?_setOp h
  obtain ⟨o, ho, rfl⟩ := setOp_eq_ok h
  refine ⟨by simp, fun _ _ hx => hx, fun id o' ho' => ?_, ?_⟩
  · rw [hlookup]
    split
    · exact ⟨_, by rw [ho]; rfl⟩
    · exact ⟨o', ho'⟩
  · unfold liveBetween live
    rw [List.filter_filterMap, List.filter_filterMap]
    -- Only `op` is looked up differently, and it is not among those that count.
    apply List.filterMap_congr
    intro id _
    rw [hlookup]
    by_cases hid : id = op
    · subst hid
      rw [if_pos rfl, ho]
      simp only [Option.map_some, Option.filter_some, hop, decide_false]
      rfl
    · rw [if_neg hid]

theorem act (hp : p.Coherent) (hstop : stop ≤ p.ops.size) {a : Action} (ha : a.Spares first stop) :
    p.Spared first stop (p.act a) := by
  cases a with
  | insert d =>
    show p.Spared first stop (p.orElse ((p.insert d).map Prod.snd))
    cases hins : p.insert d with
    | error e => exact refl first stop p
    | ok s =>
      obtain ⟨hd, -, hs⟩ := insert_eq_ok hins
      show p.Spared first stop s.2
      rw [hs]
      exact place hp hd hstop
  | setPlacement op placement =>
    show p.Spared first stop (p.orElse (p.setPlacement op placement))
    cases hset : p.setPlacement op placement with
    | error e => exact refl first stop p
    | ok s => exact setPlacement ha hset
  | addInput | before | after | atEnd | remove | setStream | setType | relocate | prune => exact absurd ha id

theorem run (hp : p.Coherent) (hstop : stop ≤ p.ops.size) {actions : List Action}
    (hactions : ∀ a ∈ actions, a.Spares first stop) :
    (p.run actions).Coherent ∧ p.Spared first stop (p.run actions) := by
  induction actions generalizing p with
  | nil => exact ⟨hp, refl first stop p⟩
  | cons a actions ih =>
    have hstep := act hp hstop (hactions a (List.mem_cons_self ..))
    obtain ⟨hcoherent, hrest⟩ := ih (hp.act a) (Nat.le_trans hstop hstep.size_le)
      fun b hb => hactions b (List.mem_cons_of_mem _ hb)
    exact ⟨hcoherent, hstep.trans hrest⟩

end Spared

end Program

end CrossMesh
