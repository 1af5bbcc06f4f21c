import CrossMesh.Program.Schedule
import Mathlib.Data.List.Basic
import Mathlib.Logic.Relation

/-!
# The nearest chunk downstream of a value

A chain leads from a value to a chunk: its first operation uses the value, each other one uses a result of the one
before it, and its last operation is the only one that is scheduled.  The search downstream of a value visits every
operation at most once, and still ends where a shortest chain does (`chunkDownstream_nearest`).  The values that wait
in its queue belong to two levels, the nearer ones first (`Nearest`), and an operation that was visited is on no chain
that is shorter than those from its results (`Chain.avoid`).  What the search finds depends only on the operations
downstream of the value, and of these only on those that are scheduled or make something (`chunkDownstream_congr`).
-/

namespace CrossMesh

namespace Operation

theorem consumes_iff {o : Operation} {v : ValueId} : o.consumes v = true ↔ v ∈ o.operands := by
  unfold consumes
  exact List.contains_iff_mem

theorem scheduled?_eq_some_iff {o : Operation} {chunk : Int} :
    o.scheduled? = some chunk ↔ o.chunk = chunk ∧ chunk ≠ unscheduled := by
  unfold scheduled? Operation.chunk OpPlacement.scheduled?
  cases o.placement with
  | none => simp [eq_comm]
  | some a => by_cases h : a.chunk = unscheduled <;> simp [h] <;> grind

theorem scheduled?_eq_none_iff {o : Operation} : o.scheduled? = none ↔ o.chunk = unscheduled := by
  unfold scheduled? Operation.chunk OpPlacement.scheduled?
  cases o.placement with
  | none => simp
  | some a => simp

/-- A search that comes to the operation ends there or goes on from it: it is scheduled, or it makes something. -/
def carries (o : Operation) : Bool := o.scheduled?.isSome || !o.results.isEmpty

theorem not_carries_iff {o : Operation} : ¬o.carries = true ↔ o.scheduled? = none ∧ o.results = [] := by
  unfold carries
  simp

end Operation

theorem mem_consumersIn_iff {os : List Operation} {o : Operation} {v : ValueId} :
    o ∈ consumersIn os v ↔ o ∈ os ∧ v ∈ o.operands := by
  rw [consumersIn, List.mem_filter, Operation.consumes_iff]

theorem mem_othersIn_iff {os : List Operation} {o : Operation} {v : ValueId} :
    o ∈ othersIn os v ↔ o ∈ os ∧ v ∉ o.operands := by
  rw [othersIn, List.mem_filter, Bool.not_eq_true', ← Bool.not_eq_true, Operation.consumes_iff]

/-! ### Chains -/

/-- The operations lead from a value to a chunk: the first one uses the value, each other one a result of the one
before it, and the last one is the only one that is scheduled, with this chunk. -/
inductive Chain (os : List Operation) : ValueId → List Operation → Int → Prop
  | last {v : ValueId} {o : Operation} (ho : o ∈ os) (hv : v ∈ o.operands) (hchunk : o.chunk ≠ unscheduled) :
      Chain os v [o] o.chunk
  | step {v r : ValueId} {o : Operation} {us : List Operation} {chunk : Int} (ho : o ∈ os) (hv : v ∈ o.operands)
      (hopen : o.chunk = unscheduled) (hr : r ∈ o.results) (h : Chain os r us chunk) : Chain os v (o :: us) chunk

namespace Chain

variable {os os' : List Operation} {v w : ValueId} {us : List Operation} {chunk : Int}

theorem chunk_ne (h : Chain os v us chunk) : chunk ≠ unscheduled := by
  induction h with
  | last ho hv hchunk => exact hchunk
  | step ho hv hopen hr h ih => exact ih

theorem length_pos (h : Chain os v us chunk) : 0 < us.length := by
  cases h <;> exact Nat.succ_pos _

theorem exists_user (h : Chain os v us chunk) : ∃ o ∈ os, v ∈ o.operands := by
  cases h with
  | last ho hv hchunk => exact ⟨_, ho, hv⟩
  | step ho hv hopen hr h => exact ⟨_, ho, hv⟩

theorem mono (hos : ∀ o ∈ os, o ∈ os') (h : Chain os v us chunk) : Chain os' v us chunk := by
  induction h with
  | last ho hv hchunk => exact .last (hos _ ho) hv hchunk
  | step ho hv hopen hr h ih => exact .step (hos _ ho) hv hopen hr ih

/-- The part of a chain behind the last user of a value is a chain without users of that value.  If no user of the
value is scheduled, a chain either has no user of it or goes on behind the last one. -/
theorem avoid (hopen : ∀ o ∈ os, v ∈ o.operands → o.chunk = unscheduled) (h : Chain os w us chunk) :
    Chain (othersIn os v) w us chunk ∨
      ∃ o ∈ consumersIn os v, ∃ r ∈ o.results, ∃ rest, Chain (othersIn os v) r rest chunk ∧
        rest.length < us.length := by
  induction h with
  | @last w o ho hw hchunk =>
    have hnot : v ∉ o.operands := fun hv => hchunk (hopen o ho hv)
    exact .inl (.last (mem_othersIn_iff.2 ⟨ho, hnot⟩) hw hchunk)
  | @step w r o us chunk ho hw hunscheduled hr h ih =>
    rcases ih with hrest | ⟨o', ho', r', hr', rest, hrest, hlt⟩
    · by_cases hv : v ∈ o.operands
      · exact .inr ⟨o, mem_consumersIn_iff.2 ⟨ho, hv⟩, r, hr, us, hrest, Nat.lt_succ_self _⟩
      · exact .inl (.step (mem_othersIn_iff.2 ⟨ho, hv⟩) hw hunscheduled hr hrest)
    · exact .inr ⟨o', ho', r', hr', rest, hrest, Nat.lt_succ_of_lt hlt⟩

end Chain

/-! ### Two levels of values -/

/-- A chain of `n` operations leads to the chunk, from a value of `front` or behind one more operation from a value of
`back`. -/
def Leads (os : List Operation) (front back : List ValueId) (n : Nat) (chunk : Int) : Prop :=
  (∃ v ∈ front, ∃ us, Chain os v us chunk ∧ us.length = n) ∨
    ∃ v ∈ back, ∃ us, Chain os v us chunk ∧ us.length + 1 = n

/-- The chunk is that of a shortest chain, or `unscheduled` without one. -/
def Nearest (os : List Operation) (front back : List ValueId) (chunk : Int) : Prop :=
  (∃ n, Leads os front back n chunk ∧ ∀ n' chunk', Leads os front back n' chunk' → n ≤ n') ∨
    chunk = unscheduled ∧ ∀ n chunk', ¬Leads os front back n chunk'

section Levels

variable {os : List Operation} {v : ValueId} {front back : List ValueId} {chunk : Int}

theorem Leads.pos {n : Nat} (h : Leads os front back n chunk) : 0 < n := by
  rcases h with ⟨v, -, us, hus, rfl⟩ | ⟨v, -, us, -, rfl⟩
  · exact hus.length_pos
  · exact Nat.succ_pos _

/-- When the front is used up, the values behind it are the front. -/
theorem Nearest.advance (h : Nearest os back [] chunk) : Nearest os [] back chunk := by
  have hshift : ∀ {n c}, Leads os [] back (n + 1) c ↔ Leads os back [] n c := by
    intro n c
    simp [Leads]
  have hback : ∀ {n c}, Leads os [] back n c → ∃ m, n = m + 1 ∧ Leads os back [] m c := by
    intro n c hn
    obtain ⟨m, rfl⟩ := Nat.exists_eq_succ_of_ne_zero (Nat.ne_of_gt hn.pos)
    exact ⟨m, rfl, hshift.1 hn⟩
  rcases h with ⟨n, hn, hmin⟩ | ⟨hchunk, hnone⟩
  · refine .inl ⟨n + 1, hshift.2 hn, fun n' c hn' => ?_⟩
    obtain ⟨m, rfl, hm⟩ := hback hn'
    exact Nat.succ_le_succ (hmin m c hm)
  · refine .inr ⟨hchunk, fun n c hn => ?_⟩
    obtain ⟨m, rfl, hm⟩ := hback hn
    exact hnone m c hm

/-- A scheduled user of a value of the front is as near as can be. -/
theorem Nearest.of_user {o : Operation} (ho : o ∈ os) (hv : v ∈ o.operands) (hchunk : o.chunk ≠ unscheduled) :
    Nearest os (v :: front) back o.chunk :=
  .inl ⟨1, .inl ⟨v, List.mem_cons_self, [o], .last ho hv hchunk, rfl⟩, fun _ _ hn => hn.pos⟩

/-- A chain that starts behind the users of a value comes with a chain that starts at the value. -/
theorem Leads.of_others (hopen : ∀ o ∈ os, v ∈ o.operands → o.chunk = unscheduled) {n : Nat}
    (h : Leads (othersIn os v) front (back ++ (consumersIn os v).flatMap Operation.results) n chunk) :
    Leads os (v :: front) back n chunk := by
  have hothers : ∀ o ∈ othersIn os v, o ∈ os := fun o ho => (mem_othersIn_iff.1 ho).1
  rcases h with ⟨w, hw, us, hus, rfl⟩ | ⟨w, hw, us, hus, rfl⟩
  · exact .inl ⟨w, List.mem_cons_of_mem _ hw, us, hus.mono hothers, rfl⟩
  · rcases List.mem_append.1 hw with hw | hw
    · exact .inr ⟨w, hw, us, hus.mono hothers, rfl⟩
    · -- Before a chain from a result comes the operation that makes it, and this one uses the value.
      obtain ⟨o, ho, hr⟩ := List.mem_flatMap.1 hw
      obtain ⟨hos, hv⟩ := mem_consumersIn_iff.1 ho
      exact .inl ⟨v, List.mem_cons_self, o :: us, .step hos hv (hopen o hos hv) hr (hus.mono hothers), rfl⟩

/-- Visiting the users of a value hides no shorter chain: what is left of a chain behind the last of them is short
enough. -/
theorem Leads.exists_others (hopen : ∀ o ∈ os, v ∈ o.operands → o.chunk = unscheduled) {n : Nat}
    (h : Leads os (v :: front) back n chunk) :
    ∃ n' ≤ n, Leads (othersIn os v) front (back ++ (consumersIn os v).flatMap Operation.results) n' chunk := by
  have behind : ∀ {o : Operation} {r : ValueId} {rest : List Operation}, o ∈ consumersIn os v → r ∈ o.results →
      Chain (othersIn os v) r rest chunk →
      Leads (othersIn os v) front (back ++ (consumersIn os v).flatMap Operation.results) (rest.length + 1) chunk :=
    fun ho hr hrest => .inr ⟨_, List.mem_append_right _ (List.mem_flatMap.2 ⟨_, ho, hr⟩), _, hrest, rfl⟩
  rcases h with ⟨w, hw, us, hus, rfl⟩ | ⟨w, hw, us, hus, rfl⟩
  · rcases hus.avoid hopen with havoids | ⟨o, ho, r, hr, rest, hrest, hlt⟩
    · rcases List.mem_cons.1 hw with rfl | hw
      · obtain ⟨o, ho, hv⟩ := havoids.exists_user
        exact absurd hv (mem_othersIn_iff.1 ho).2
      · exact ⟨_, Nat.le_refl _, .inl ⟨w, hw, us, havoids, rfl⟩⟩
    · exact ⟨_, hlt, behind ho hr hrest⟩
  · rcases hus.avoid hopen with havoids | ⟨o, ho, r, hr, rest, hrest, hlt⟩
    · exact ⟨_, Nat.le_refl _, .inr ⟨w, List.mem_append_left _ hw, us, havoids, rfl⟩⟩
    · exact ⟨_, Nat.le_succ_of_le hlt, behind ho hr hrest⟩

/-- When no user of a value of the front is scheduled, its users can be left out if their results are put behind. -/
theorem Nearest.visit (hopen : ∀ o ∈ os, v ∈ o.operands → o.chunk = unscheduled)
    (h : Nearest (othersIn os v) front (back ++ (consumersIn os v).flatMap Operation.results) chunk) :
    Nearest os (v :: front) back chunk := by
  rcases h with ⟨n, hn, hmin⟩ | ⟨hchunk, hnone⟩
  · refine .inl ⟨n, hn.of_others hopen, fun n' c hn' => ?_⟩
    obtain ⟨m, hle, hm⟩ := hn'.exists_others hopen
    exact Nat.le_trans (hmin m c hm) hle
  · refine .inr ⟨hchunk, fun n c hn => ?_⟩
    obtain ⟨m, -, hm⟩ := hn.exists_others hopen
    exact hnone m c hm

/-- The search finds the nearest chunk, wherever the level of its queue ends. -/
theorem nearest_chunkFrom (os : List Operation) (queue : List ValueId) :
    ∀ front back, queue = front ++ back → Nearest os front back (chunkFrom os queue) := by
  fun_induction chunkFrom os queue with
  | case1 os =>
    intro front back hqueue
    obtain ⟨rfl, rfl⟩ := List.append_eq_nil_iff.1 hqueue.symm
    exact .inr ⟨rfl, fun n c hn => by simp [Leads] at hn⟩
  | case2 os v queue chunk hfound =>
    intro front back hqueue
    obtain ⟨o, ho, hscheduled⟩ := List.exists_of_findSome?_eq_some hfound
    obtain ⟨hos, hv⟩ := mem_consumersIn_iff.1 ho
    obtain ⟨rfl, hchunk⟩ := Operation.scheduled?_eq_some_iff.1 hscheduled
    cases front with
    | nil =>
      obtain rfl : v :: queue = back := hqueue
      exact (Nearest.of_user hos hv hchunk).advance
    | cons w front =>
      obtain ⟨rfl, rfl⟩ := List.cons.inj hqueue
      exact .of_user hos hv hchunk
  | case3 os v queue hnone ih =>
    intro front back hqueue
    have hopen : ∀ o ∈ os, v ∈ o.operands → o.chunk = unscheduled := by
      intro o ho hv
      have hnot := List.findSome?_eq_none_iff.1 hnone o (mem_consumersIn_iff.2 ⟨ho, hv⟩)
      exact Operation.scheduled?_eq_none_iff.1 hnot
    cases front with
    | nil =>
      obtain rfl : v :: queue = back := hqueue
      exact ((ih queue _ rfl).visit hopen).advance
    | cons w front =>
      obtain ⟨rfl, rfl⟩ := List.cons.inj hqueue
      exact (ih front _ (List.append_assoc ..)).visit hopen

end Levels

/-! ### Programs -/

namespace Program

variable {p q : Program} {v : ValueId}

/-- The operations are left in the program and lead from the value to the chunk. -/
def LeadsTo (p : Program) (v : ValueId) (us : List Operation) (chunk : Int) : Prop :=
  Chain (p.live.map Prod.snd) v us chunk

/-- No chain that leads from the value to a chunk is shorter than one that leads to this chunk; the chunk is
`unscheduled` if there is no chain. -/
def NearestChunk (p : Program) (v : ValueId) (chunk : Int) : Prop :=
  (∃ us, p.LeadsTo v us chunk ∧ ∀ us' chunk', p.LeadsTo v us' chunk' → us.length ≤ us'.length) ∨
    chunk = unscheduled ∧ ∀ us chunk', ¬p.LeadsTo v us chunk'

theorem mem_users_iff {u : OpId × Operation} : u ∈ p.users v ↔ u ∈ p.live ∧ v ∈ u.2.operands := by
  rw [users, List.mem_filter, Operation.consumes_iff]

theorem consumersIn_live (p : Program) (v : ValueId) :
    consumersIn (p.live.map Prod.snd) v = (p.users v).map Prod.snd := by
  rw [consumersIn, users, List.filter_map]
  rfl

theorem nearestChunk_chunkDownstream (p : Program) (v : ValueId) : p.NearestChunk v (p.chunkDownstream v) := by
  have hleads : ∀ {us chunk}, p.LeadsTo v us chunk → Leads (p.live.map Prod.snd) [v] [] us.length chunk :=
    fun hus => .inl ⟨v, List.mem_singleton_self v, _, hus, rfl⟩
  have hchain : ∀ {n chunk}, Leads (p.live.map Prod.snd) [v] [] n chunk → ∃ us, p.LeadsTo v us chunk ∧ us.length = n := by
    rintro n chunk (⟨w, hw, us, hus, hlength⟩ | ⟨w, hw, -⟩)
    · obtain rfl := List.mem_singleton.1 hw
      exact ⟨us, hus, hlength⟩
    · exact absurd hw List.not_mem_nil
  rcases nearest_chunkFrom (p.live.map Prod.snd) [v] [v] [] rfl with ⟨n, hn, hmin⟩ | ⟨hchunk, hnone⟩
  · obtain ⟨us, hus, rfl⟩ := hchain hn
    exact .inl ⟨us, hus, fun us' chunk' hus' => hmin _ _ (hleads hus')⟩
  · exact .inr ⟨hchunk, fun us chunk' hus => hnone _ _ (hleads hus)⟩

theorem chunkDownstream_of_unused (h : p.users v = []) : p.chunkDownstream v = unscheduled := by
  rw [chunkDownstream, chunkFrom, consumersIn_live, h]
  show chunkFrom _ [] = unscheduled
  rw [chunkFrom]

/-- Of the users of the value itself the first one that is scheduled decides. -/
theorem chunkDownstream_of_user {before after : List (OpId × Operation)} {u : OpId × Operation}
    (husers : p.users v = before ++ u :: after) (hbefore : ∀ x ∈ before, x.2.chunk = unscheduled)
    (hchunk : u.2.chunk ≠ unscheduled) : p.chunkDownstream v = u.2.chunk := by
  have hfirst : (consumersIn (p.live.map Prod.snd) v).findSome? Operation.scheduled? = some u.2.chunk := by
    rw [consumersIn_live, List.findSome?_eq_some_iff]
    refine ⟨before.map Prod.snd, u.2, after.map Prod.snd, ?_, ?_, ?_⟩
    · rw [husers, List.map_append, List.map_cons]
    · exact Operation.scheduled?_eq_some_iff.2 ⟨rfl, hchunk⟩
    · intro o ho
      obtain ⟨x, hx, rfl⟩ := List.mem_map.1 ho
      exact Operation.scheduled?_eq_none_iff.2 (hbefore x hx)
  rw [chunkDownstream, chunkFrom, hfirst]

/-- The search downstream of a value answers `unscheduled` exactly if no chain of operations leads from the value to a
chunk.  Otherwise it answers with the chunk at the end of a shortest chain, and if a user of the value is scheduled,
with the chunk of the first one that is. -/
theorem chunkDownstream_nearest (p : Program) (v : ValueId) :
    (p.chunkDownstream v = unscheduled ↔ ∀ us chunk, ¬p.LeadsTo v us chunk) ∧
      (p.chunkDownstream v ≠ unscheduled → ∃ us, p.LeadsTo v us (p.chunkDownstream v) ∧
        ∀ us' chunk, p.LeadsTo v us' chunk → us.length ≤ us'.length) ∧
      ∀ before u after, p.users v = before ++ u :: after → (∀ x ∈ before, x.2.chunk = unscheduled) →
        u.2.chunk ≠ unscheduled → p.chunkDownstream v = u.2.chunk := by
  have hnearest := p.nearestChunk_chunkDownstream v
  refine ⟨⟨fun hopen => ?_, fun hnone => ?_⟩, fun hchunk => ?_, fun _ _ _ => chunkDownstream_of_user⟩
  · rcases hnearest with ⟨us, hus, -⟩ | ⟨-, hnone⟩
    · exact absurd hopen hus.chunk_ne
    · exact hnone
  · rcases hnearest with ⟨us, hus, -⟩ | ⟨hopen, -⟩
    · exact absurd hus (hnone us _)
    · exact hopen
  · rcases hnearest with hshortest | ⟨hopen, -⟩
    · exact hshortest
    · exact absurd hopen hchunk

/-! ### What the search depends on -/

/-- An operation that is not scheduled uses `v` and makes `r`. -/
def PassesOn (p : Program) (v r : ValueId) : Prop := ∃ u ∈ p.users v, u.2.chunk = unscheduled ∧ r ∈ u.2.results

/-- The value `w` is made from `v` by operations that are not scheduled, or it is `v`. -/
def Downstream (p : Program) : ValueId → ValueId → Prop := Relation.ReflTransGen p.PassesOn

/-- The users of a value that a search takes notice of, in execution order. -/
def carriers (p : Program) (v : ValueId) : List Operation :=
  ((p.users v).map Prod.snd).filter Operation.carries

end Program

theorem consumersIn_filter (os : List Operation) (c : Operation → Bool) (v : ValueId) :
    consumersIn (os.filter c) v = (consumersIn os v).filter c :=
  List.filter_comm ..

theorem othersIn_filter (os : List Operation) (c : Operation → Bool) (v : ValueId) :
    othersIn (os.filter c) v = (othersIn os v).filter c :=
  List.filter_comm ..

theorem findSome?_scheduled?_filter_carries (os : List Operation) :
    (os.filter Operation.carries).findSome? Operation.scheduled? = os.findSome? Operation.scheduled? := by
  induction os with
  | nil => rfl
  | cons o os ih =>
    by_cases h : o.carries = true
    · rw [List.filter_cons_of_pos h, List.findSome?_cons, List.findSome?_cons, ih]
    · rw [List.filter_cons_of_neg h, List.findSome?_cons, ih, (Operation.not_carries_iff.1 h).1]

theorem flatMap_results_filter_carries (os : List Operation) :
    (os.filter Operation.carries).flatMap Operation.results = os.flatMap Operation.results := by
  induction os with
  | nil => rfl
  | cons o os ih =>
    by_cases h : o.carries = true
    · rw [List.filter_cons_of_pos h, List.flatMap_cons, List.flatMap_cons, ih]
    · rw [List.filter_cons_of_neg h, List.flatMap_cons, ih, (Operation.not_carries_iff.1 h).2, List.nil_append]

/-- Operations that are not scheduled and make nothing can be left out of a search. -/
theorem chunkFrom_filter_carries (os : List Operation) (queue : List ValueId) :
    chunkFrom (os.filter Operation.carries) queue = chunkFrom os queue := by
  fun_induction chunkFrom os queue with
  | case1 os => rw [chunkFrom]
  | case2 os v queue chunk hfound =>
    rw [chunkFrom, consumersIn_filter, findSome?_scheduled?_filter_carries, hfound]
  | case3 os v queue hnone ih =>
    rw [chunkFrom, consumersIn_filter, findSome?_scheduled?_filter_carries, hnone]
    show chunkFrom (othersIn (os.filter Operation.carries) v) _ = _
    rw [othersIn_filter, flatMap_results_filter_carries, ih]

/-- The search is the same if the values that can come into the queue have the same users. -/
theorem chunkFrom_congr (comes : ValueId → Prop) {os os' : List Operation} {queue : List ValueId}
    (hqueue : ∀ v ∈ queue, comes v) (husers : ∀ v, comes v → consumersIn os' v = consumersIn os v)
    (hresults : ∀ v, comes v → ∀ o ∈ consumersIn os v, o.chunk = unscheduled → ∀ r ∈ o.results, comes r) :
    chunkFrom os' queue = chunkFrom os queue := by
  fun_induction chunkFrom os queue generalizing os' with
  | case1 os => rw [chunkFrom]
  | case2 os v queue chunk hfound =>
    have hv := husers v (hqueue v List.mem_cons_self)
    rw [chunkFrom, hv, hfound]
  | case3 os v queue hnone ih =>
    have hv := husers v (hqueue v List.mem_cons_self)
    have hcomm : ∀ (l : List Operation) (w : ValueId),
        consumersIn (othersIn l v) w = othersIn (consumersIn l w) v := fun l w => List.filter_comm ..
    rw [chunkFrom, hv, hnone]
    refine ih (fun w hw => ?_) (fun w hw => ?_) fun w hw o ho hopen r hr => ?_
    · rcases List.mem_append.1 hw with hw | hw
      · exact hqueue w (List.mem_cons_of_mem _ hw)
      · obtain ⟨o, ho, hr⟩ := List.mem_flatMap.1 hw
        have hopen := Operation.scheduled?_eq_none_iff.1 (List.findSome?_eq_none_iff.1 hnone o ho)
        exact hresults v (hqueue v List.mem_cons_self) o ho hopen w hr
    · rw [hcomm, hcomm, husers w hw]
    · rw [hcomm] at ho
      exact hresults w hw o (mem_othersIn_iff.1 ho).1 hopen r hr

/-- The chunk downstream of a value is the same in programs in which a search takes notice of the same users of the
values downstream of it. -/
theorem Program.chunkDownstream_congr {p q : Program} {v : ValueId}
    (h : ∀ w, p.Downstream v w → q.carriers w = p.carriers w) : q.chunkDownstream v = p.chunkDownstream v := by
  have hcarriers : ∀ (r : Program) (w : ValueId),
      consumersIn ((r.live.map Prod.snd).filter Operation.carries) w = r.carriers w := by
    intro r w
    rw [consumersIn_filter, consumersIn_live]
    rfl
  unfold chunkDownstream
  rw [← chunkFrom_filter_carries (q.live.map Prod.snd), ← chunkFrom_filter_carries (p.live.map Prod.snd)]
  refine chunkFrom_congr (p.Downstream v) (fun w hw => ?_) (fun w hw => ?_) fun w hw o ho hopen r hr => ?_
  · obtain rfl := List.mem_singleton.1 hw
    exact .refl
  · rw [hcarriers, hcarriers, h w hw]
  · rw [hcarriers] at ho
    obtain ⟨u, hu, rfl⟩ := List.mem_map.1 (List.mem_of_mem_filter ho)
    exact hw.tail ⟨u, hu, hopen, hr⟩

end CrossMesh
