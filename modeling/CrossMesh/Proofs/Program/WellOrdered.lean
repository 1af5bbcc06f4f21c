import CrossMesh.Proofs.Relocation.Matching

/-!
# Definitions before uses

A program is well ordered if every operation uses only inputs and results of operations that stand before it in the
execution order.  A relocation of a value that is made before the insertion point keeps a program well ordered and
answers with a value that is made before the insertion point too, and pruning keeps it well ordered
(`wellOrdered_kept`).  An insertion only lengthens what stands before the operations behind it, and pruning takes no
operation away whose results are used by one that stays.
-/

namespace CrossMesh

namespace Program

/-- The value is an input or the result of one of the operations. -/
def MadeBy (p : Program) (us : List (OpId × Operation)) (v : ValueId) : Prop :=
  p.definingOp v = .ok none ∨ ∃ u ∈ us, v ∈ u.2.results

/-- Every operand of an operation that is left is an input or the result of one before it in the execution order. -/
def WellOrdered (p : Program) : Prop :=
  ∀ before u after, p.live = before ++ u :: after → ∀ v ∈ u.2.operands, p.MadeBy before v

/-- The value is an input or made before the insertion point. -/
def Ready (p : Program) (v : ValueId) : Prop := p.MadeBy (p.pick p.left) v

/-- Every operand of an operation of a list is an input or the result of an `earlier` one or of one before it in the
list. -/
def OrderedBehind (p : Program) : List (OpId × Operation) → List (OpId × Operation) → Prop
  | _, [] => True
  | earlier, u :: us => (∀ v ∈ u.2.operands, p.MadeBy earlier v) ∧ p.OrderedBehind (earlier ++ [u]) us

theorem orderedBehind_iff {p : Program} {earlier us : List (OpId × Operation)} : p.OrderedBehind earlier us ↔
    ∀ before u after, us = before ++ u :: after → ∀ v ∈ u.2.operands, p.MadeBy (earlier ++ before) v := by
  induction us generalizing earlier with
  | nil => simp [OrderedBehind]
  | cons x us ih =>
    constructor
    · rintro ⟨hx, hus⟩ before u after hsplit
      cases before with
      | nil =>
        obtain ⟨rfl, -⟩ := List.cons.inj hsplit
        rw [List.append_nil]
        exact hx
      | cons y before =>
        obtain ⟨rfl, hrest⟩ := List.cons.inj hsplit
        rw [List.append_cons]
        exact ih.1 hus before u after hrest
    · intro h
      refine ⟨fun v hv => ?_, ih.2 fun before u after hsplit v hv => ?_⟩
      · have hx := h [] x us rfl v hv
        rw [List.append_nil] at hx
        exact hx
      · rw [← List.append_cons]
        exact h (x :: before) u after (congrArg (List.cons x) hsplit) v hv

theorem wellOrdered_iff {p : Program} : p.WellOrdered ↔ p.OrderedBehind [] p.live := by
  rw [orderedBehind_iff]
  rfl

section Order

variable {p q : Program} {earlier earlier' us us' : List (OpId × Operation)} {v : ValueId}

theorem MadeBy.mono (hinputs : ∀ v, p.definingOp v = .ok none → q.definingOp v = .ok none)
    (hearlier : ∀ u ∈ earlier, u ∈ earlier') (h : p.MadeBy earlier v) : q.MadeBy earlier' v := by
  rcases h with hinput | ⟨u, hu, hv⟩
  · exact .inl (hinputs v hinput)
  · exact .inr ⟨u, hearlier u hu, hv⟩

theorem OrderedBehind.mono (hinputs : ∀ v, p.definingOp v = .ok none → q.definingOp v = .ok none)
    (hearlier : ∀ u ∈ earlier, u ∈ earlier') (h : p.OrderedBehind earlier us) : q.OrderedBehind earlier' us := by
  induction us generalizing earlier earlier' with
  | nil => trivial
  | cons x us ih =>
    refine ⟨fun v hv => (h.1 v hv).mono hinputs hearlier, ih (fun u hu => ?_) h.2⟩
    rcases List.mem_append.1 hu with hu | hu
    · exact List.mem_append_left _ (hearlier u hu)
    · exact List.mem_append_right _ hu

theorem orderedBehind_append : p.OrderedBehind earlier (us ++ us') ↔
    p.OrderedBehind earlier us ∧ p.OrderedBehind (earlier ++ us) us' := by
  induction us generalizing earlier with
  | nil => simp [OrderedBehind]
  | cons x us ih =>
    show (∀ v ∈ x.2.operands, p.MadeBy earlier v) ∧ p.OrderedBehind (earlier ++ [x]) (us ++ us') ↔ _
    rw [ih, ← List.append_cons]
    exact and_assoc.symm

/-- Operations can be left out if none that stays uses a result of them. -/
theorem OrderedBehind.filter {keep : OpId × Operation → Bool} (h : p.OrderedBehind earlier us)
    (hkeep : ∀ u ∈ us, keep u = true → ∀ v ∈ u.2.operands, ∀ x ∈ earlier ++ us, v ∈ x.2.results → keep x = true) :
    p.OrderedBehind (earlier.filter keep) (us.filter keep) := by
  induction us generalizing earlier with
  | nil => trivial
  | cons y us ih =>
    have hrest := ih h.2 fun u hu hku v hv x hx => hkeep u (List.mem_cons_of_mem _ hu) hku v hv x
      (by rw [List.append_cons]; exact hx)
    by_cases hy : keep y = true
    · rw [List.filter_append, List.filter_cons_of_pos hy, List.filter_nil] at hrest
      rw [List.filter_cons_of_pos hy]
      refine ⟨fun v hv => ?_, hrest⟩
      rcases h.1 v hv with hinput | ⟨x, hx, hvx⟩
      · exact .inl hinput
      · have hkx := hkeep y List.mem_cons_self hy v hv x (List.mem_append_left _ hx) hvx
        exact .inr ⟨x, List.mem_filter.2 ⟨hx, hkx⟩, hvx⟩
    · rw [List.filter_append, List.filter_cons_of_neg hy, List.filter_nil, List.append_nil] at hrest
      rw [List.filter_cons_of_neg hy]
      exact hrest

end Order

/-! ### Insertions -/

theorem definingOp_place {p : Program} (d : Draft) {v : ValueId} (h : p.definingOp v = .ok none) :
    (p.place d).definingOp v = .ok none := by
  unfold definingOp value at h ⊢
  cases hx : p.value? v with
  | none => simp [hx, Except.map] at h
  | some x =>
    rw [value?_place_old d (lt_of_value?_eq_some hx)]
    exact h

namespace Coherent

variable {p : Program} {v : ValueId}

theorem ready_place (hp : p.Coherent) (d : Draft) (h : p.Ready v) : (p.place d).Ready v := by
  unfold Ready
  rw [hp.pick_left_place]
  exact MadeBy.mono (fun v => definingOp_place d) (fun u hu => List.mem_append_left _ hu) h

/-- The results of an inserted operation are made before the insertion point. -/
theorem ready_of_mem_draftResults (hp : p.Coherent) {d : Draft} (h : v ∈ p.draftResults d) : (p.place d).Ready v := by
  unfold Ready
  rw [hp.pick_left_place]
  exact .inr ⟨_, List.mem_append_right _ (List.mem_singleton_self _), h⟩

theorem lt_of_ready (hp : p.Coherent) (h : p.Ready v) : v.index < p.values.size := by
  rcases h with hinput | ⟨⟨op, o⟩, hu, hv⟩
  · unfold definingOp value at hinput
    cases hx : p.value? v with
    | none => simp [hx, Except.map] at hinput
    | some x => exact lt_of_value?_eq_some hx
  · obtain ⟨id, -, hid⟩ := List.mem_filterMap.1 hu
    obtain ⟨o', ho, heq⟩ := Option.map_eq_some_iff.1 hid
    obtain ⟨rfl, rfl⟩ := Prod.mk.inj heq
    obtain ⟨i, hi⟩ := List.mem_iff_getElem?.1 hv
    obtain ⟨x, hx, -⟩ := hp.origin_of_result id o' i v ho hi
    exact lt_of_value?_eq_some hx

theorem known_of_ready (hp : p.Coherent) {d : Draft} (hd : ∀ v ∈ d.operands, p.Ready v) : p.Known d :=
  fun v hv => hp.lt_of_ready (hd v hv)

/-- An operation that uses only what is made before the insertion point may be inserted there. -/
theorem wellOrdered_place (hp : p.Coherent) (h : p.WellOrdered) {d : Draft} (hd : ∀ v ∈ d.operands, p.Ready v) :
    (p.place d).WellOrdered := by
  have hlive : (p.place d).live = (p.pick p.left ++ [(p.nextOp, p.draftOperation d)]) ++ p.pick p.right := by
    rw [live_eq_pick, hp.pick_left_place, hp.pick_right_place]
  have hinputs : ∀ v, p.definingOp v = .ok none → (p.place d).definingOp v = .ok none := fun v => definingOp_place d
  rw [wellOrdered_iff, live_eq_pick, orderedBehind_append] at h
  obtain ⟨hleft, hright⟩ := h
  rw [wellOrdered_iff, hlive, orderedBehind_append, orderedBehind_append]
  refine ⟨⟨hleft.mono hinputs fun u hu => hu, fun v hv => ?_, trivial⟩, ?_⟩
  · exact (hd v hv).mono hinputs fun u hu => List.mem_append_right _ hu
  · refine hright.mono hinputs fun u hu => ?_
    rw [List.nil_append] at hu ⊢
    exact List.mem_append_left _ hu

/-- Operations that use only what was made before the insertion point may be inserted one after the other. -/
theorem wellOrdered_placeAll (hp : p.Coherent) (h : p.WellOrdered) {ds : List Draft}
    (hds : ∀ d ∈ ds, ∀ v ∈ d.operands, p.Ready v) : (p.placeAll ds).WellOrdered := by
  induction ds generalizing p with
  | nil => exact h
  | cons d ds ih =>
    have hd := hds d List.mem_cons_self
    have hplace := hp.place (hp.known_of_ready hd)
    exact ih hplace (hp.wellOrdered_place h hd)
      fun e he v hv => hp.ready_place d (hds e (List.mem_cons_of_mem _ he) v hv)

/-! ### Pruning -/

/-- Clearing away operations whose users are all cleared away keeps definitions before uses. -/
theorem wellOrdered_cleared {q : Program} {removed : List (OpId × Operation)} {rank : Rank} (hcleared : p.Cleared removed q)
    (hmem : ∀ op, op ∈ removed.map Prod.fst ↔ p.WhollyForeign rank op) (h : p.WellOrdered) : q.WellOrdered := by
  have hinputs : ∀ v, p.definingOp v = .ok none → q.definingOp v = .ok none := by
    intro v hv
    unfold definingOp value value? at hv ⊢
    rw [hcleared.values]
    exact hv
  rw [wellOrdered_iff] at h ⊢
  rw [hcleared.live]
  refine (h.filter fun u hu hku v hv x hx hvx => ?_).mono hinputs fun u hu => hu
  rw [decide_eq_true_eq, hmem] at hku ⊢
  rw [List.nil_append] at hx
  -- What makes an operand of an operation that stays feeds it, and so it stays too.
  exact fun hforeign => hku (hforeign.of_feeds ⟨x.2, u.2, hx, hu, v, hvx, hv⟩)

end Coherent

end Program

/-! ### Relocations -/

namespace Relocation.Part

variable {m : Relocation} {p : Program} {t : Groups} {rank : Rank} {config : Config} {role : Role}
  {ds : List Program.Draft} {v : ValueId}

/-- The drafts of a role use nothing but the value that is relocated. -/
theorem operand_eq (h : m.Part p t rank config role ds v) {d : Program.Draft} (hd : d ∈ ds) {x : ValueId}
    (hx : x ∈ d.operands) : x = m.value := by
  cases h with
  | sender hg hchunk =>
    rcases List.mem_cons.1 hd with rfl | hd
    · exact List.mem_singleton.1 hx
    · obtain rfl := List.mem_singleton.1 hd
      exact List.mem_singleton.1 hx
  | receiver hg htype =>
    obtain rfl := List.mem_singleton.1 hd
    exact absurd hx List.not_mem_nil
  | stationary => exact absurd hd List.not_mem_nil
  | bystander hsrc hdst hvalue =>
    obtain rfl := List.mem_singleton.1 hd
    exact List.mem_singleton.1 hx

/-- The value that stands for the destination is made before the insertion point. -/
theorem ready (h : m.Part p t rank config role ds v) (hp : p.Coherent) (hvalue : p.Ready m.value) :
    (p.placeAll ds).Ready v := by
  have hnext : ∀ (q : Program) (d : Program.Draft), d.types = [m.type] → q.nextValue ∈ q.draftResults d := by
    intro q d htypes
    rw [Program.draftResults_of_single htypes]
    exact List.mem_singleton_self _
  cases h with
  | @sender peer g chunk hg hchunk =>
    -- The send makes no value, so the placeholder makes the next one.
    have hsend := hp.place (known_sendDraft (m := m) (hp.lt_of_ready hvalue) g.id chunk config.stream)
    have hready := hsend.ready_of_mem_draftResults (hnext _ m.placeholderDraft rfl)
    rw [Program.nextValue_place (d := m.sendDraft g.id chunk config.stream) rfl] at hready
    exact hready
  | receiver hg htype => exact hp.ready_of_mem_draftResults (hnext p _ rfl)
  | stationary => exact hvalue
  | bystander hsrc hdst hlt => exact hp.ready_of_mem_draftResults (hnext p _ rfl)

end Relocation.Part

/-- A relocation of a value that is an input or made before the insertion point keeps a program well ordered, and so is
the value it answers with: an operation that uses it, and whatever else is made before the insertion point, can be
inserted next.  Pruning keeps a program well ordered. -/
theorem wellOrdered_kept {w : Worker} (hp : w.program.Reachable) (hw : w.program.WellOrdered) (rank : Rank) :
    (∀ config m v w', w.program.Ready m.value → w.relocate rank config m = (.ok v, w') →
      w'.program.WellOrdered ∧ w'.program.Ready v ∧
        ∀ d : Program.Draft, (∀ x ∈ d.operands, x = v ∨ w'.program.Ready x) →
          ∃ op q, w'.program.insert d = .ok (op, q) ∧ q.WellOrdered) ∧
      ∃ n w', w.prune rank = (.ok n, w') ∧ w'.program.WellOrdered := by
  have hcoherent := hp.coherent
  constructor
  · intro config m v w' hvalue h
    obtain ⟨-, -, ds, hpart, hprogram⟩ := Worker.relocate_eq_ok h
    have hafter : w'.program.Coherent := hprogram ▸ hcoherent.placeAll hpart.accepts
    have hordered : w'.program.WellOrdered := by
      rw [hprogram]
      refine hcoherent.wellOrdered_placeAll hw fun d hd x hx => ?_
      rw [hpart.operand_eq hd hx]
      exact hvalue
    have hready : w'.program.Ready v := hprogram ▸ hpart.ready hcoherent hvalue
    refine ⟨hordered, hready, fun d hd => ?_⟩
    have hoperands : ∀ x ∈ d.operands, w'.program.Ready x := by
      intro x hx
      rcases hd x hx with rfl | hx
      · exact hready
      · exact hx
    exact ⟨_, _, Program.insert_of_known (hafter.known_of_ready hoperands),
      hafter.wellOrdered_place hordered hoperands⟩
  · obtain ⟨removed, w', hprune, -, hcleared, hmem, -⟩ := Worker.exists_prune hcoherent rank
    exact ⟨_, w', hprune, Program.Coherent.wellOrdered_cleared hcleared hmem hw⟩

theorem Program.wellOrdered_forked : forked.WellOrdered := by
  rw [wellOrdered_iff]
  refine ⟨fun v hv => ?_, fun v hv => ?_, fun v hv => ?_, trivial⟩
  · obtain rfl := List.mem_singleton.1 hv
    exact .inl rfl
  · obtain rfl := List.mem_singleton.1 hv
    exact .inr ⟨_, List.mem_cons_self, List.mem_singleton_self _⟩
  · obtain rfl := List.mem_singleton.1 hv
    exact .inr ⟨_, List.mem_cons_self, List.mem_singleton_self _⟩

/-- The sender of `overlap` keeps `forked` well ordered, and so does the pruning on its rank. -/
theorem wellOrdered_kept_overlap : Program.forked.Reachable ∧ Program.forked.WellOrdered ∧
    Program.forked.Ready overlap.value ∧
    (∃ v w', Worker.relocate { program := Program.forked } 0 {} overlap = (.ok v, w') ∧
      w'.program.WellOrdered ∧ w'.program.Ready v) ∧
    ∃ n w', Worker.prune { program := Program.forked } 0 = (.ok n, w') ∧ w'.program.WellOrdered := by
  have hready : Program.forked.Ready overlap.value := .inl rfl
  have hok : ∃ v w', Worker.relocate { program := Program.forked } 0 {} overlap = (.ok v, w') := ⟨_, _, rfl⟩
  obtain ⟨v, w', hok⟩ := hok
  obtain ⟨hrelocate, hprune⟩ := wellOrdered_kept (w := { program := Program.forked }) Program.forked_reachable
    Program.wellOrdered_forked 0
  obtain ⟨hordered, hafter, -⟩ := hrelocate {} overlap v w' hready hok
  exact ⟨Program.forked_reachable, Program.wellOrdered_forked, hready, ⟨v, w', hok, hordered, hafter⟩, hprune⟩

end CrossMesh
