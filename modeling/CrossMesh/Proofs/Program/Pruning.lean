import CrossMesh.Proofs.Program.Insertions
import CrossMesh.Worker
import Mathlib.Data.List.Nodup
import Mathlib.Logic.Relation

/-!
# Pruning removes the wholly foreign operations

An operation is wholly foreign to a rank if the rank runs neither the operation nor any operation that uses its
results, directly or through others.  Pruning a coherent program never fails and removes exactly these operations
(`Coherent.exists_prune`).  A round removes foreign operations without users, and the order in which it does so does
not matter: a removal only takes users away.  When no round is left no wholly foreign operation is, because uses lead
to operations with larger ids.
-/

namespace CrossMesh

namespace Program

open Relation (TransGen)

/-- The operation `b` uses a result of the operation `a`. -/
def Feeds (p : Program) (a b : OpId) : Prop :=
  ∃ o u, (a, o) ∈ p.live ∧ (b, u) ∈ p.live ∧ ∃ v ∈ o.results, v ∈ u.operands

/-- An operation that is left and foreign to `rank`, as are all that use its results directly or through others. -/
def WhollyForeign (p : Program) (rank : Rank) (op : OpId) : Prop :=
  (∃ o, (op, o) ∈ p.live ∧ o.ForeignTo rank) ∧
    ∀ b u, TransGen p.Feeds op b → (b, u) ∈ p.live → u.ForeignTo rank

/-! ### The use of results -/

theorem Coherent.index_lt_of_feeds {p : Program} (h : p.Coherent) {a b : OpId} (hab : p.Feeds a b) :
    a.index < b.index := by
  obtain ⟨o, u, ha, hb, v, hv, hu⟩ := hab
  obtain ⟨i, hi⟩ := List.mem_iff_getElem?.1 hv
  obtain ⟨x, hx, horigin⟩ := h.origin_of_result a o i v (h.mem_live_iff.1 ha) hi
  exact h.definer_lt b u v x a i (h.mem_live_iff.1 hb) hu hx horigin

theorem WhollyForeign.of_feeds {p : Program} {rank : Rank} {a b : OpId} (ha : p.WhollyForeign rank a)
    (hab : p.Feeds a b) : p.WhollyForeign rank b := by
  obtain ⟨o, u, hao, hbu, huse⟩ := hab
  have hstep : p.Feeds a b := ⟨o, u, hao, hbu, huse⟩
  exact ⟨⟨u, hbu, ha.2 b u (.single hstep) hbu⟩, fun c x hbc hc => ha.2 c x (.head hstep hbc) hc⟩

/-- The operation that makes an operand feeds the operation that uses it. -/
theorem Coherent.feeds_of_origin {p : Program} (h : p.Coherent) {a b : OpId} {o u : Operation} {v : ValueId} {x : Value}
    {i : Nat} (ha : p.op? a = some o) (hb : (b, u) ∈ p.live) (hv : v ∈ u.operands) (hx : p.value? v = some x)
    (horigin : x.origin = .result a i) : p.Feeds a b :=
  ⟨o, u, h.mem_live_iff.2 ha, hb, v, List.mem_of_getElem? (h.result_of_origin v x a i o hx horigin ha), hv⟩

theorem Coherent.live_unique {p : Program} (h : p.Coherent) {op : OpId} {o o' : Operation} (ho : (op, o) ∈ p.live)
    (ho' : (op, o') ∈ p.live) : o = o' :=
  Option.some.inj ((h.mem_live_iff.1 ho).symm.trans (h.mem_live_iff.1 ho'))

theorem Coherent.map_fst_live {p : Program} (h : p.Coherent) : p.live.map Prod.fst = p.order := by
  unfold live
  rw [List.map_filterMap]
  refine (List.filterMap_congr fun id hid => ?_).trans List.filterMap_some
  obtain ⟨o, ho⟩ := (h.mem_order_iff id).1 hid
  rw [ho]
  rfl

theorem Coherent.nodup_live {p : Program} (h : p.Coherent) : p.live.Nodup :=
  List.Nodup.of_map Prod.fst (h.map_fst_live ▸ h.nodup_order)

/-! ### Clearing operations away -/

/-- The program `q` is `p` without the operations of `removed`, which were left in `p`. -/
structure Cleared (p : Program) (removed : List (OpId × Operation)) (q : Program) : Prop where
  coherent : q.Coherent
  live : q.live = p.live.filter fun u => u.1 ∉ removed.map Prod.fst
  values : q.values = p.values
  mem_live : ∀ u ∈ removed, u ∈ p.live
  nodup : (removed.map Prod.fst).Nodup

namespace Cleared

variable {p q r : Program} {removed more : List (OpId × Operation)}

theorem refl (h : p.Coherent) : p.Cleared [] p where
  coherent := h
  live := (List.filter_eq_self.2 fun u _ => by simp).symm
  values := rfl
  mem_live u hu := absurd hu List.not_mem_nil
  nodup := List.nodup_nil

theorem of_remove (h : p.Coherent) {op : OpId} {o : Operation} (hrem : p.remove op = .ok (o, q)) :
    p.Cleared [(op, o)] q where
  coherent := h.remove hrem
  live := by simpa using h.live_remove hrem
  values := values_remove hrem
  mem_live u hu := by
    obtain rfl := List.mem_singleton.1 hu
    obtain ⟨i, -, ho, -⟩ := remove_eq_ok hrem
    exact h.mem_live_iff.2 ho
  nodup := List.pairwise_singleton ..

theorem mem_iff (h : p.Cleared removed q) {u : OpId × Operation} :
    u ∈ q.live ↔ u ∈ p.live ∧ u.1 ∉ removed.map Prod.fst := by
  rw [h.live, List.mem_filter, decide_eq_true_eq]

theorem trans (h : p.Cleared removed q) (h' : q.Cleared more r) : p.Cleared (removed ++ more) r where
  coherent := h'.coherent
  live := by
    rw [h'.live, h.live, List.filter_filter]
    refine List.filter_congr fun u _ => ?_
    rw [List.map_append]
    simp only [List.mem_append, not_or, Bool.decide_and]
    exact Bool.and_comm ..
  values := h'.values.trans h.values
  mem_live u hu := by
    rcases List.mem_append.1 hu with hu | hu
    · exact h.mem_live u hu
    · exact (h.mem_iff.1 (h'.mem_live u hu)).1
  nodup := by
    rw [List.map_append]
    refine List.nodup_append.2 ⟨h.nodup, h'.nodup, ?_⟩
    rintro a ha b hb rfl
    obtain ⟨u, hu, rfl⟩ := List.mem_map.1 hb
    exact (h.mem_iff.1 (h'.mem_live u hu)).2 ha

theorem liveBetween (h : p.Cleared removed q) (first stop : Nat) :
    q.liveBetween first stop = (p.liveBetween first stop).filter fun u => u.1 ∉ removed.map Prod.fst := by
  unfold Program.liveBetween
  rw [h.live, List.filter_comm]

theorem hasUsers_of (h : p.Cleared removed q) {v : ValueId} (hv : q.hasUsers v = true) : p.hasUsers v = true := by
  obtain ⟨u, hu, huse⟩ := hasUsers_iff.1 hv
  exact hasUsers_iff.2 ⟨u, (h.mem_iff.1 hu).1, huse⟩

theorem feeds_iff (h : p.Cleared removed q) {a b : OpId} :
    q.Feeds a b ↔ p.Feeds a b ∧ a ∉ removed.map Prod.fst ∧ b ∉ removed.map Prod.fst := by
  constructor
  · rintro ⟨o, u, ha, hb, huse⟩
    obtain ⟨ha, hna⟩ := h.mem_iff.1 ha
    obtain ⟨hb, hnb⟩ := h.mem_iff.1 hb
    exact ⟨⟨o, u, ha, hb, huse⟩, hna, hnb⟩
  · rintro ⟨⟨o, u, ha, hb, huse⟩, hna, hnb⟩
    exact ⟨o, u, h.mem_iff.2 ⟨ha, hna⟩, h.mem_iff.2 ⟨hb, hnb⟩, huse⟩

theorem transGen_feeds (h : p.Cleared removed q) {a b : OpId} (hab : TransGen q.Feeds a b) : TransGen p.Feeds a b :=
  TransGen.mono (fun _ _ hstep => (h.feeds_iff.1 hstep).1) _ _ hab

/-- Clearing wholly foreign operations away makes no other operation wholly foreign, and none less so. -/
theorem whollyForeign_iff (hp : p.Coherent) (h : p.Cleared removed q) {rank : Rank}
    (hremoved : ∀ op ∈ removed.map Prod.fst, p.WhollyForeign rank op) {op : OpId} :
    p.WhollyForeign rank op ↔ op ∈ removed.map Prod.fst ∨ q.WhollyForeign rank op := by
  constructor
  · rintro ⟨⟨o, ho, hforeign⟩, husers⟩
    by_cases hop : op ∈ removed.map Prod.fst
    · exact .inl hop
    · exact .inr ⟨⟨o, h.mem_iff.2 ⟨ho, hop⟩, hforeign⟩,
        fun b u hb hu => husers b u (h.transGen_feeds hb) (h.mem_iff.1 hu).1⟩
  · rintro (hop | ⟨⟨o, ho, hforeign⟩, husers⟩)
    · exact hremoved op hop
    · obtain ⟨hop, hnot⟩ := h.mem_iff.1 ho
      -- A chain of uses in `p` either stays in `q` or meets a removed operation, and from there on all are foreign.
      have chain : ∀ b, TransGen p.Feeds op b →
          p.WhollyForeign rank b ∨ (TransGen q.Feeds op b ∧ b ∉ removed.map Prod.fst) := by
        intro b hb
        induction hb with
        | @single b hstep =>
          by_cases hb : b ∈ removed.map Prod.fst
          · exact .inl (hremoved b hb)
          · exact .inr ⟨.single (h.feeds_iff.2 ⟨hstep, hnot, hb⟩), hb⟩
        | @tail c b _ hstep ih =>
          rcases ih with hc | ⟨hc, hcnot⟩
          · exact .inl (hc.of_feeds hstep)
          · by_cases hb : b ∈ removed.map Prod.fst
            · exact .inl (hremoved b hb)
            · exact .inr ⟨.tail hc (h.feeds_iff.2 ⟨hstep, hcnot, hb⟩), hb⟩
      refine ⟨⟨o, hop, hforeign⟩, fun b u hb hu => ?_⟩
      rcases chain b hb with ⟨⟨u', hu', hforeign'⟩, -⟩ | ⟨hq, hbnot⟩
      · rw [hp.live_unique hu hu']
        exact hforeign'
      · exact husers b u hq (h.mem_iff.2 ⟨hu, hbnot⟩)

end Cleared

/-! ### Removing one operation after the other -/

theorem removeAll_cons_eq_ok {p q : Program} {op : OpId} {ops : List OpId} {removed : List (OpId × Operation)}
    (h : p.removeAll (op :: ops) = .ok (removed, q)) :
    ∃ o r more, p.remove op = .ok (o, r) ∧ r.removeAll ops = .ok (more, q) ∧ removed = (op, o) :: more := by
  unfold removeAll at h
  split at h
  · exact absurd h (by simp)
  · rename_i o r hrem
    cases hall : r.removeAll ops with
    | error e => simp [hall, Except.map] at h
    | ok s =>
      simp only [hall, Except.map, Except.ok.injEq, Prod.mk.injEq] at h
      obtain ⟨rfl, rfl⟩ := h
      exact ⟨o, r, s.1, hrem, hall, rfl⟩

theorem removeAll_append {p q : Program} {ops : List OpId} {removed : List (OpId × Operation)}
    (h : p.removeAll ops = .ok (removed, q)) (more : List OpId) :
    p.removeAll (ops ++ more) = (q.removeAll more).map fun r => (removed ++ r.1, r.2) := by
  induction ops generalizing p removed with
  | nil =>
    obtain ⟨rfl, rfl⟩ := Prod.mk.inj (Except.ok.inj h)
    show p.removeAll more = _
    cases p.removeAll more <;> rfl
  | cons op ops ih =>
    obtain ⟨o, r, rest, hrem, hall, rfl⟩ := removeAll_cons_eq_ok h
    rw [List.cons_append, removeAll]
    simp only [hrem, ih hall]
    cases q.removeAll more <;> rfl

theorem Cleared.of_removeAll {p q : Program} (hp : p.Coherent) {ops : List OpId} {removed : List (OpId × Operation)}
    (h : p.removeAll ops = .ok (removed, q)) : p.Cleared removed q := by
  induction ops generalizing p removed with
  | nil =>
    obtain ⟨rfl, rfl⟩ := Prod.mk.inj (Except.ok.inj h)
    exact refl hp
  | cons op ops ih =>
    obtain ⟨o, r, more, hrem, hall, rfl⟩ := removeAll_cons_eq_ok h
    have hone := of_remove hp hrem
    exact hone.trans (ih hone.coherent hall)

/-! ### A round -/

theorem prune_of_nil {p : Program} {rank : Rank} (h : p.prunable rank = []) : p.prune rank = .ok ([], p) := by
  unfold prune
  split
  · rfl
  · rename_i op ops hround
    exact absurd (h.symm.trans hround) (by simp)

theorem prune_of_removeAll {p q : Program} {rank : Rank} {removed : List (OpId × Operation)}
    (hsome : p.prunable rank ≠ []) (h : p.removeAll (p.prunable rank) = .ok (removed, q)) :
    p.prune rank = (q.prune rank).map fun r => (removed ++ r.1, r.2) := by
  rw [prune]
  split
  · rename_i hnone
    exact absurd hnone hsome
  · rename_i op ops hround
    rw [hround] at h
    split
    · rename_i e herror
      exact absurd (herror.symm.trans h) (by simp)
    · rename_i removed' q' hok
      obtain ⟨rfl, rfl⟩ := Prod.mk.inj (Except.ok.inj (hok.symm.trans h))
      rfl

theorem prune_of_removeAll_error {p : Program} {rank : Rank} {e : ProgramError}
    (h : p.removeAll (p.prunable rank) = .error e) : p.prune rank = .error e := by
  rw [prune]
  split
  · rename_i hnone
    rw [hnone] at h
    exact absurd h (by simp [removeAll])
  · rename_i op ops hround
    rw [hround] at h
    split
    · rename_i e' herror
      exact congrArg Except.error (Except.error.inj (herror.symm.trans h))
    · rename_i removed q hok
      exact absurd (hok.symm.trans h) (by simp)

theorem length_order_round {p q : Program} {rank : Rank} {removed : List (OpId × Operation)}
    (hsome : p.prunable rank ≠ []) (h : p.removeAll (p.prunable rank) = .ok (removed, q)) :
    q.order.length < p.order.length := by
  obtain ⟨op, ops, hcons⟩ := List.exists_cons_of_ne_nil hsome
  rw [hcons] at h
  exact length_order_removeAll_cons h

theorem mem_prunable_iff {p : Program} {rank : Rank} {op : OpId} : op ∈ p.prunable rank ↔
    ∃ o, (op, o) ∈ p.live ∧ o.ForeignTo rank ∧ ∀ v ∈ o.results, p.hasUsers v = false := by
  unfold prunable
  rw [List.mem_map]
  constructor
  · rintro ⟨⟨id, o⟩, hu, rfl⟩
    rw [List.mem_filter, List.mem_reverse] at hu
    exact ⟨o, hu.1, by simpa using hu.2⟩
  · rintro ⟨o, ho, hforeign, hunused⟩
    exact ⟨(op, o), List.mem_filter.2 ⟨List.mem_reverse.2 ho, by simpa using ⟨hforeign, hunused⟩⟩, rfl⟩

namespace Coherent

variable {p : Program}

theorem nodup_prunable (h : p.Coherent) (rank : Rank) : (p.prunable rank).Nodup := by
  have hlive : (p.live.reverse.map Prod.fst).Nodup := by
    rw [List.map_reverse, h.map_fst_live]
    exact List.nodup_reverse.2 h.nodup_order
  exact hlive.sublist (List.filter_sublist.map Prod.fst)

theorem whollyForeign_of_mem_prunable (h : p.Coherent) {rank : Rank} {op : OpId} (hop : op ∈ p.prunable rank) :
    p.WhollyForeign rank op := by
  obtain ⟨o, ho, hforeign, hunused⟩ := mem_prunable_iff.1 hop
  have hlast : ∀ b, ¬p.Feeds op b := by
    rintro b ⟨o', u, ho', hb, v, hv, hu⟩
    rw [h.live_unique ho' ho] at hv
    exact Bool.false_ne_true ((hunused v hv).symm.trans (hasUsers_iff.2 ⟨_, hb, hu⟩))
  refine ⟨⟨o, ho, hforeign⟩, fun b u hb _ => ?_⟩
  obtain ⟨c, hc, -⟩ := TransGen.head'_iff.1 hb
  exact absurd hc (hlast c)

/-- Without a prunable operation there is no wholly foreign one: the last of them would be prunable. -/
theorem not_whollyForeign (h : p.Coherent) {rank : Rank} (hnone : p.prunable rank = []) (op : OpId) :
    ¬p.WhollyForeign rank op := by
  -- A use leads to a larger id, so the ids behind `op` become fewer.
  induction hn : p.ops.size - op.index using Nat.strongRecOn generalizing op with
  | ind n ih =>
    intro hop
    obtain ⟨o, ho, hforeign⟩ := hop.1
    have hused : ∃ v ∈ o.results, p.hasUsers v = true := by
      by_contra hunused
      have hmem : op ∈ p.prunable rank := mem_prunable_iff.2 ⟨o, ho, hforeign, fun v hv => by
        by_contra hne
        exact hunused ⟨v, hv, by simpa using hne⟩⟩
      rw [hnone] at hmem
      exact absurd hmem List.not_mem_nil
    obtain ⟨v, hv, huse⟩ := hused
    obtain ⟨⟨b, u⟩, hb, hu⟩ := hasUsers_iff.1 huse
    have hstep : p.Feeds op b := ⟨o, u, ho, hb, v, hv, hu⟩
    have hlt := h.index_lt_of_feeds hstep
    have hsize := lt_of_op?_eq_some (h.mem_live_iff.1 hb)
    exact ih (p.ops.size - b.index) (by omega) b rfl (hop.of_feeds hstep)

/-- Operations that are left and have no used results can be removed one after the other: a removal takes users away
and adds none. -/
theorem exists_removeAll (h : p.Coherent) {ops : List OpId} (hnodup : ops.Nodup)
    (hops : ∀ op ∈ ops, ∃ o, (op, o) ∈ p.live ∧ ∀ v ∈ o.results, p.hasUsers v = false) :
    ∃ removed q, p.removeAll ops = .ok (removed, q) ∧ removed.map Prod.fst = ops ∧ p.Cleared removed q := by
  induction ops generalizing p with
  | nil => exact ⟨[], p, rfl, rfl, Cleared.refl h⟩
  | cons op ops ih =>
    obtain ⟨hop, hnodup⟩ := List.nodup_cons.1 hnodup
    obtain ⟨o, ho, hunused⟩ := hops op (List.mem_cons_self ..)
    obtain ⟨q, hrem⟩ := h.exists_remove (h.mem_live_iff.1 ho) hunused
    have hcleared := Cleared.of_remove h hrem
    have hrest : ∀ id ∈ ops, ∃ o, (id, o) ∈ q.live ∧ ∀ v ∈ o.results, q.hasUsers v = false := by
      intro id hid
      obtain ⟨o', ho', hunused'⟩ := hops id (List.mem_cons_of_mem _ hid)
      refine ⟨o', hcleared.mem_iff.2 ⟨ho', ?_⟩, fun v hv => ?_⟩
      · intro hm
        obtain rfl := List.mem_singleton.1 hm
        exact hop hid
      · by_contra hne
        exact Bool.false_ne_true ((hunused' v hv).symm.trans (hcleared.hasUsers_of (by simpa using hne)))
    obtain ⟨removed, r, hall, hids, hcleared'⟩ := ih hcleared.coherent hnodup hrest
    refine ⟨(op, o) :: removed, r, ?_, ?_, hcleared.trans hcleared'⟩
    · unfold removeAll
      simp [hrem, hall, Except.map]
    · rw [List.map_cons, hids]

/-- The operations of a round can be removed one after the other. -/
theorem exists_removeAll_prunable (h : p.Coherent) (rank : Rank) : ∃ removed q,
    p.removeAll (p.prunable rank) = .ok (removed, q) ∧ removed.map Prod.fst = p.prunable rank ∧ p.Cleared removed q :=
  h.exists_removeAll (h.nodup_prunable rank) fun id hid => by
    obtain ⟨o, ho, -, hunused⟩ := mem_prunable_iff.1 hid
    exact ⟨o, ho, hunused⟩

/-! ### All rounds -/

/-- Pruning never fails; it removes exactly the wholly foreign operations and leaves nothing to prune. -/
theorem exists_prune (h : p.Coherent) (rank : Rank) : ∃ removed q, p.prune rank = .ok (removed, q) ∧
    p.Cleared removed q ∧ (∀ op, op ∈ removed.map Prod.fst ↔ p.WhollyForeign rank op) ∧ q.prunable rank = [] := by
  -- Every round shortens the execution order, and what it removes was wholly foreign from the start.
  induction hn : p.order.length using Nat.strongRecOn generalizing p with
  | ind n ih =>
    by_cases hround : p.prunable rank = []
    · exact ⟨[], p, prune_of_nil hround, Cleared.refl h,
        fun op => ⟨fun hm => absurd hm List.not_mem_nil, fun hop => absurd hop (h.not_whollyForeign hround op)⟩, hround⟩
    · obtain ⟨removed, q, hall, hids, hcleared⟩ := h.exists_removeAll_prunable rank
      have hshorter : q.order.length < n := hn ▸ length_order_round hround hall
      obtain ⟨more, r, hprune, hcleared', hmem, hlast⟩ := ih q.order.length hshorter hcleared.coherent rfl
      have hforeign : ∀ id ∈ removed.map Prod.fst, p.WhollyForeign rank id := by
        intro id hid
        rw [hids] at hid
        exact h.whollyForeign_of_mem_prunable hid
      refine ⟨removed ++ more, r, ?_, hcleared.trans hcleared', fun id => ?_, hlast⟩
      · rw [prune_of_removeAll hround hall, hprune]
        rfl
      · rw [hcleared.whollyForeign_iff h hforeign, List.map_append, List.mem_append, hmem]

/-- What pruning removes can be removed one operation after the other. -/
theorem removeAll_of_prune (h : p.Coherent) {rank : Rank} {removed : List (OpId × Operation)} {q : Program}
    (hprune : p.prune rank = .ok (removed, q)) : p.removeAll (removed.map Prod.fst) = .ok (removed, q) := by
  -- The rounds of a pruning become fewer with the operations in the execution order.
  induction hn : p.order.length using Nat.strongRecOn generalizing p removed with
  | ind n ih =>
    by_cases hround : p.prunable rank = []
    · rw [prune_of_nil hround] at hprune
      obtain ⟨rfl, rfl⟩ := Prod.mk.inj (Except.ok.inj hprune)
      rfl
    · obtain ⟨first, r, hall, hids, hcleared⟩ := h.exists_removeAll_prunable rank
      have hshorter : r.order.length < n := hn ▸ length_order_round hround hall
      obtain ⟨more, s, hmore, -⟩ := hcleared.coherent.exists_prune rank
      rw [prune_of_removeAll hround hall, hmore] at hprune
      obtain ⟨rfl, rfl⟩ := Prod.mk.inj (Except.ok.inj hprune)
      rw [List.map_append, hids, removeAll_append hall, ih r.order.length hshorter hcleared.coherent hmore rfl]
      rfl

end Coherent

end Program

namespace Worker

private theorem foldl_note (us : List (OpId × Operation)) (w : Worker) : ∃ journal,
    us.foldl (fun w r => w.note (.removed r.1 r.2.name)) w = { program := w.program, groups := w.groups, journal } := by
  induction us generalizing w with
  | nil => exact ⟨_, rfl⟩
  | cons u us ih => exact ih (w.note (.removed u.1 u.2.name))

/-- Pruning a worker prunes its program and answers with the number of removed operations. -/
theorem prune_eq {w : Worker} {rank : Rank} {removed : List (OpId × Operation)} {q : Program}
    (h : w.program.prune rank = .ok (removed, q)) :
    ∃ journal, w.prune rank = (.ok removed.length, { program := q, groups := w.groups, journal }) := by
  obtain ⟨journal, hnotes⟩ := foldl_note removed { w with program := q }
  unfold prune
  simp only [h, hnotes]
  exact ⟨_, rfl⟩

theorem exists_prune {w : Worker} (h : w.program.Coherent) (rank : Rank) : ∃ removed w',
    w.prune rank = (.ok removed.length, w') ∧ w'.groups = w.groups ∧ w.program.Cleared removed w'.program ∧
      (∀ op, op ∈ removed.map Prod.fst ↔ w.program.WhollyForeign rank op) ∧ w'.program.prunable rank = [] := by
  obtain ⟨removed, q, hprune, hcleared, hmem, hlast⟩ := h.exists_prune rank
  obtain ⟨journal, heq⟩ := prune_eq hprune
  exact ⟨removed, _, heq, rfl, hcleared, hmem, hlast⟩

end Worker

end CrossMesh
