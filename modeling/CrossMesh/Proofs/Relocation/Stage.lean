import CrossMesh.Proofs.Program.Downstream
import CrossMesh.Proofs.Relocation.Kept

/-!
# The stage a receive belongs to

A value is received with the chunk of the last operation that uses it and makes its first result on the destination
mesh, and if this one is not scheduled, with the nearest chunk downstream of that result (`Program.Receiving`).  The
relocation asks the table of values where a result lives; in a coherent program this is where the placement of its
operation puts it (`Coherent.livesOn_iff`).  Other users of the value count only as operations downstream of that
result (`Program.SameStage`, `Coherent.receivingChunk_congr`), and as these they do (`stage_depends_on_observer`).
`receive_scheduled` says both of the receive that a relocation inserts.
-/

namespace CrossMesh

/-- The operation has results, and its placement puts the first one on the mesh. -/
def Operation.MakesOn (o : Operation) (mesh : Mesh) : Prop :=
  o.results ≠ [] ∧ ∃ a first, o.placement = some a ∧ a.results[0]? = some first ∧ first.mesh = mesh

theorem Operation.getD_scheduled? (o : Operation) (chunk : Int) :
    o.scheduled?.getD chunk = if o.chunk = unscheduled then chunk else o.chunk := by
  by_cases hopen : o.chunk = unscheduled
  · rw [if_pos hopen, scheduled?_eq_none_iff.2 hopen]
    rfl
  · rw [if_neg hopen, scheduled?_eq_some_iff.2 ⟨rfl, hopen⟩]
    rfl

namespace Program

/-- The operation is the last one in the execution order that uses the value and makes its first result on the mesh. -/
def LastUserOn (p : Program) (v : ValueId) (mesh : Mesh) (u : OpId × Operation) : Prop :=
  ∃ before after, p.users v = before ++ u :: after ∧ u.2.MakesOn mesh ∧ ∀ x ∈ after, ¬x.2.MakesOn mesh

namespace LastUserOn

variable {p : Program} {v : ValueId} {mesh : Mesh} {u : OpId × Operation}

theorem mem_users (h : p.LastUserOn v mesh u) : u ∈ p.users v := by
  obtain ⟨before, after, husers, -⟩ := h
  rw [husers]
  exact List.mem_append_right _ List.mem_cons_self

theorem exists_head (h : p.LastUserOn v mesh u) : ∃ r, u.2.results.head? = some r := by
  obtain ⟨-, -, -, ⟨hresults, -⟩, -⟩ := h
  cases hr : u.2.results with
  | nil => exact absurd hr hresults
  | cons r rs => exact ⟨r, rfl⟩

end LastUserOn

/-- The chunk with which a value should be received on a mesh. -/
inductive Receiving (p : Program) (v : ValueId) (mesh : Mesh) : Int → Prop
  | unused (hnone : ∀ u ∈ p.users v, ¬u.2.MakesOn mesh) : Receiving p v mesh unscheduled
  | user {u : OpId × Operation} (hu : p.LastUserOn v mesh u) (hchunk : u.2.chunk ≠ unscheduled) :
      Receiving p v mesh u.2.chunk
  | downstream {u : OpId × Operation} {r : ValueId} {chunk : Int} (hu : p.LastUserOn v mesh u)
      (hopen : u.2.chunk = unscheduled) (hr : u.2.results.head? = some r) (hchunk : p.NearestChunk r chunk) :
      Receiving p v mesh chunk

/-- A value is used in the same stage of two programs: nowhere on the mesh, or last by operations with the same chunk
and the same first result.  If they are not scheduled, a search downstream of that result takes notice of the same
operations.  Nothing is said about other users of the value itself. -/
inductive SameStage (p q : Program) (v : ValueId) (mesh : Mesh) : Prop
  | unused (hp : ∀ u ∈ p.users v, ¬u.2.MakesOn mesh) (hq : ∀ u ∈ q.users v, ¬u.2.MakesOn mesh)
  | user {u u' : OpId × Operation} (hp : p.LastUserOn v mesh u) (hq : q.LastUserOn v mesh u')
      (hchunk : u'.2.chunk = u.2.chunk) (hresult : u'.2.results.head? = u.2.results.head?)
      (hdownstream : u.2.chunk = unscheduled → ∀ r, u.2.results.head? = some r → ∀ x, p.Downstream r x → x ≠ v →
        q.carriers x = p.carriers x)

/-- The user of a value with its first result, if that lives on the mesh. -/
def consumerOn? (p : Program) (mesh : Mesh) (u : OpId × Operation) : Option (Operation × ValueId) :=
  match u.2.results.head? with
  | some r => if p.LivesOn r mesh then some (u.2, r) else none
  | none => none

theorem consumersOn_eq (p : Program) (v : ValueId) (mesh : Mesh) :
    p.consumersOn v mesh = (p.users v).filterMap (p.consumerOn? mesh) := rfl

namespace Coherent

variable {p q : Program} {v : ValueId} {mesh : Mesh}

/-- The table of values knows the first result of an operation by the placement of that operation. -/
theorem livesOn_iff (hp : p.Coherent) {u : OpId × Operation} (hu : u ∈ p.live) {r : ValueId}
    (hr : u.2.results.head? = some r) : p.LivesOn r mesh ↔ u.2.MakesOn mesh := by
  obtain ⟨op, o⟩ := u
  have hop : p.op? op = some o := hp.mem_live_iff.1 hu
  obtain ⟨rest, hresults⟩ : ∃ rest, o.results = r :: rest := List.head?_eq_some_iff.1 hr
  obtain ⟨x, hx, horigin⟩ := hp.origin_of_result op o 0 r hop (by rw [hresults]; rfl)
  have hplacement : p.valuePlacement r = .ok (o.placement.bind fun a => a.results[0]?) := by
    simp [valuePlacement, value, Program.op, hx, horigin, hop, Except.map]
  unfold LivesOn Operation.MakesOn
  rw [hplacement]
  cases ha : o.placement with
  | none => simp
  | some a =>
    cases hfirst : a.results[0]? with
    | none => simp [hfirst]
    | some first => simp [hresults, hfirst]

theorem consumerOn?_eq_none_iff (hp : p.Coherent) {u : OpId × Operation} (hu : u ∈ p.users v) :
    p.consumerOn? mesh u = none ↔ ¬u.2.MakesOn mesh := by
  obtain ⟨hlive, -⟩ := mem_users_iff.1 hu
  unfold consumerOn?
  cases hr : u.2.results.head? with
  | none => simp [Operation.MakesOn, List.head?_eq_none_iff.1 hr]
  | some r => simp [hp.livesOn_iff hlive hr]

theorem consumerOn?_eq_some_iff (hp : p.Coherent) {u : OpId × Operation} (hu : u ∈ p.users v) {o : Operation}
    {r : ValueId} : p.consumerOn? mesh u = some (o, r) ↔
      u.2.MakesOn mesh ∧ u.2 = o ∧ u.2.results.head? = some r := by
  obtain ⟨hlive, -⟩ := mem_users_iff.1 hu
  unfold consumerOn?
  cases hr : u.2.results.head? with
  | none => simp
  | some r' => simp [hp.livesOn_iff hlive hr]

theorem getLast?_consumersOn_eq_none_iff (hp : p.Coherent) :
    (p.consumersOn v mesh).getLast? = none ↔ ∀ u ∈ p.users v, ¬u.2.MakesOn mesh := by
  rw [consumersOn_eq, List.getLast?_filterMap, List.findSome?_eq_none_iff]
  simp only [List.mem_reverse]
  exact forall₂_congr fun u hu => hp.consumerOn?_eq_none_iff hu

/-- The last consumer on a mesh is the last user that makes its first result there. -/
theorem getLast?_consumersOn_eq_some_iff (hp : p.Coherent) {o : Operation} {r : ValueId} :
    (p.consumersOn v mesh).getLast? = some (o, r) ↔
      ∃ u, p.LastUserOn v mesh u ∧ u.2 = o ∧ u.2.results.head? = some r := by
  rw [consumersOn_eq, List.getLast?_filterMap, List.findSome?_eq_some_iff]
  constructor
  · rintro ⟨after, u, before, hsplit, hu, hafter⟩
    have husers : p.users v = before.reverse ++ u :: after.reverse := by
      rw [← List.reverse_reverse (p.users v), hsplit]
      simp
    have hmem : ∀ x ∈ u :: after.reverse, x ∈ p.users v := fun x hx => husers ▸ List.mem_append_right _ hx
    obtain ⟨hon, ho, hr⟩ := (hp.consumerOn?_eq_some_iff (hmem u List.mem_cons_self)).1 hu
    refine ⟨u, ⟨_, _, husers, hon, fun x hx => ?_⟩, ho, hr⟩
    have hnone := hafter x (List.mem_reverse.1 hx)
    exact (hp.consumerOn?_eq_none_iff (hmem x (List.mem_cons_of_mem _ hx))).1 hnone
  · rintro ⟨u, ⟨before, after, husers, hon, hafter⟩, ho, hr⟩
    have hmem : ∀ x ∈ u :: after, x ∈ p.users v := fun x hx => husers ▸ List.mem_append_right _ hx
    refine ⟨after.reverse, u, before.reverse, ?_, ?_, fun x hx => ?_⟩
    · rw [husers]
      simp
    · exact (hp.consumerOn?_eq_some_iff (hmem u List.mem_cons_self)).2 ⟨hon, ho, hr⟩
    · rw [List.mem_reverse] at hx
      exact (hp.consumerOn?_eq_none_iff (hmem x (List.mem_cons_of_mem _ hx))).2 (hafter x hx)

theorem receivingChunk_of_unused (hp : p.Coherent) (h : ∀ u ∈ p.users v, ¬u.2.MakesOn mesh) :
    p.receivingChunk v mesh = unscheduled := by
  rw [receivingChunk, hp.getLast?_consumersOn_eq_none_iff.2 h]

theorem receivingChunk_of_lastUserOn (hp : p.Coherent) {u : OpId × Operation} (hu : p.LastUserOn v mesh u) {r : ValueId}
    (hr : u.2.results.head? = some r) :
    p.receivingChunk v mesh = if u.2.chunk = unscheduled then p.chunkDownstream r else u.2.chunk := by
  have hlast := hp.getLast?_consumersOn_eq_some_iff.2 ⟨u, hu, rfl, hr⟩
  rw [receivingChunk, hlast]
  exact u.2.getD_scheduled? _

theorem receiving (hp : p.Coherent) (v : ValueId) (mesh : Mesh) : p.Receiving v mesh (p.receivingChunk v mesh) := by
  cases hlast : (p.consumersOn v mesh).getLast? with
  | none =>
    have hnone := hp.getLast?_consumersOn_eq_none_iff.1 hlast
    rw [hp.receivingChunk_of_unused hnone]
    exact .unused hnone
  | some c =>
    obtain ⟨u, hu, -, hr⟩ := hp.getLast?_consumersOn_eq_some_iff.1 hlast
    rw [hp.receivingChunk_of_lastUserOn hu hr]
    by_cases hopen : u.2.chunk = unscheduled
    · rw [if_pos hopen]
      exact .downstream hu hopen hr (p.nearestChunk_chunkDownstream c.2)
    · rw [if_neg hopen]
      exact .user hu hopen

theorem lt_of_mem_users (hp : p.Coherent) {u : OpId × Operation} (hu : u ∈ p.users v) {r : ValueId}
    (hr : r ∈ u.2.results) : v.index < r.index := by
  obtain ⟨hlive, hv⟩ := mem_users_iff.1 hu
  exact hp.operand_lt_result u.1 u.2 v r (hp.mem_live_iff.1 hlive) hv hr

theorem index_le_of_downstream (hp : p.Coherent) {r x : ValueId} (h : p.Downstream r x) : r.index ≤ x.index := by
  induction h with
  | refl => exact Nat.le_refl _
  | tail hx hpasses ih =>
    obtain ⟨u, hu, -, hresult⟩ := hpasses
    exact Nat.le_trans ih (Nat.le_of_lt (hp.lt_of_mem_users hu hresult))

/-- A value is not downstream of what its users make. -/
theorem ne_of_downstream (hp : p.Coherent) {u : OpId × Operation} (hu : u ∈ p.users v) {r x : ValueId}
    (hr : r ∈ u.2.results) (hx : p.Downstream r x) : x ≠ v := by
  have hlt := hp.lt_of_mem_users hu hr
  have hle := hp.index_le_of_downstream hx
  rintro rfl
  exact Nat.lt_irrefl _ (Nat.lt_of_lt_of_le hlt hle)

theorem receivingChunk_congr (hp : p.Coherent) (hq : q.Coherent) (h : p.SameStage q v mesh) :
    q.receivingChunk v mesh = p.receivingChunk v mesh := by
  cases h with
  | unused hnone hnone' => rw [hp.receivingChunk_of_unused hnone, hq.receivingChunk_of_unused hnone']
  | @user u u' hu hu' hchunk hresult hdownstream =>
    obtain ⟨r, hr⟩ := hu.exists_head
    have hr' : u'.2.results.head? = some r := hresult.trans hr
    rw [hp.receivingChunk_of_lastUserOn hu hr, hq.receivingChunk_of_lastUserOn hu' hr', hchunk]
    by_cases hopen : u.2.chunk = unscheduled
    · rw [if_pos hopen, if_pos hopen]
      refine chunkDownstream_congr fun x hx => hdownstream hopen r hr x hx ?_
      exact hp.ne_of_downstream hu.mem_users (List.mem_of_head? hr) hx
    · rw [if_neg hopen, if_neg hopen]

end Coherent

end Program

namespace Worker

variable {m : Relocation} {rank peer : Rank}

/-- The relocation succeeds and inserts one operation, which is a receive with the chunk. -/
def ReceivesWith (w : Worker) (rank : Rank) (config : Config) (m : Relocation) (chunk : Int) : Prop :=
  ∃ v w' u a, w.relocate rank config m = (.ok v, w') ∧
    w'.program.liveBetween w.program.ops.size w'.program.ops.size = [u] ∧ u.2.IsReceive ∧
    u.2.placement = some a ∧ a.chunk = chunk

theorem receivesWith (hclash : clash? m.pairs = none) (hrole : roleOf m.pairs rank = .receiver peer)
    (htype : ¬m.type.Dynamic) (config : Config) {w : Worker} (hp : w.program.Coherent) :
    w.ReceivesWith rank config m (w.program.receivingChunk m.value m.dst.mesh) := by
  have hwilling : ∀ e, ¬m.Refusal w.program rank (roleOf m.pairs rank) e := by
    rw [hrole]
    exact Relocation.not_refusal_receiver htype
  obtain ⟨v, w', h⟩ := exists_relocate_of_not_refusal w rank config hclash hwilling
  obtain ⟨-, -, ds, hpart, hprogram⟩ := relocate_eq_ok h
  rw [hrole] at hpart
  have hnew := hp.liveBetween_placeAll hpart.accepts
  rw [← hprogram] at hnew
  cases hpart with
  | receiver hg _ => exact ⟨_, w', _, _, h, hnew, ⟨_, _, _, _, rfl⟩, rfl, rfl⟩

end Worker

/-- A receiver of a value of known size inserts a receive, and this is scheduled with the last user of the value that
makes its first result on the destination mesh, or with the nearest scheduled operation downstream of that result.  In
a program in which the value is used in the same stage the receive has the same chunk, whatever else uses the value
there. -/
theorem receive_scheduled {m : Relocation} {rank peer : Rank} (hclash : clash? m.pairs = none)
    (hrole : roleOf m.pairs rank = .receiver peer) (htype : ¬m.type.Dynamic) (config : Config) {w : Worker}
    (hp : w.program.Reachable) :
    ∃ chunk, w.ReceivesWith rank config m chunk ∧ w.program.Receiving m.value m.dst.mesh chunk ∧
      ∀ w₂ : Worker, w₂.program.Reachable → w.program.SameStage w₂.program m.value m.dst.mesh →
        w₂.ReceivesWith rank config m chunk := by
  refine ⟨_, Worker.receivesWith hclash hrole htype config hp.coherent, hp.coherent.receiving _ _, fun w₂ hp₂ h => ?_⟩
  rw [← hp.coherent.receivingChunk_congr hp₂.coherent h]
  exact Worker.receivesWith hclash hrole htype config hp₂.coherent

/-- Two operations use the input and make a value on the destination mesh of `overlap`.  The first one has a chunk, and
the second one passes its value on to an operation that has one. -/
def staged (chunk : Int) : Program :=
  let on (chunk : Int) : OpPlacement :=
    { mesh := overlap.dst.mesh, operands := [], results := [overlap.dst], chunk }
  Program.run {} [.addInput ⟨[4], .f32⟩ none,
    .insert { kind := .compute "a", operands := [⟨0⟩], types := [⟨[4], .f32⟩], placement := some (on chunk) },
    .insert { kind := .compute "b", operands := [⟨0⟩], types := [⟨[4], .f32⟩], placement := some (on unscheduled) },
    .insert { kind := .compute "c", operands := [⟨2⟩], types := [], placement := some (on 5) }]

theorem staged_reachable (chunk : Int) : (staged chunk).Reachable := ⟨_, rfl⟩

/-- An operation of `staged`. -/
def stagedOperation (name : String) (operands results : List ValueId) (chunk : Int) : Operation where
  kind := .compute name
  operands := operands
  results := results
  placement := some { mesh := overlap.dst.mesh, operands := [], results := [overlap.dst], chunk }
  stream := none

theorem users_staged_input : ∀ chunk ∈ [3, 7], (staged chunk).users ⟨0⟩ =
    [(⟨0⟩, stagedOperation "a" [⟨0⟩] [⟨1⟩] chunk), (⟨1⟩, stagedOperation "b" [⟨0⟩] [⟨2⟩] unscheduled)] := by decide

theorem users_staged_passed :
    ∀ chunk ∈ [3, 7], (staged chunk).users ⟨2⟩ = [(⟨2⟩, stagedOperation "c" [⟨2⟩] [] 5)] := by decide

theorem lastUserOn_staged {chunk : Int} (h : chunk ∈ [3, 7]) : (staged chunk).LastUserOn overlap.value overlap.dst.mesh
    (⟨1⟩, stagedOperation "b" [⟨0⟩] [⟨2⟩] unscheduled) :=
  ⟨[_], [], users_staged_input chunk h, ⟨List.cons_ne_nil _ _, _, _, rfl, rfl, rfl⟩, List.forall_mem_nil _⟩

/-- The chunk of the first user does not count. -/
theorem staged_sameStage : (staged 3).SameStage (staged 7) overlap.value overlap.dst.mesh := by
  have hthree : (3 : Int) ∈ [3, 7] := by decide
  have hseven : (7 : Int) ∈ [3, 7] := by decide
  refine .user (lastUserOn_staged hthree) (lastUserOn_staged hseven) rfl rfl fun _ r hr x hx _ => ?_
  obtain rfl : ⟨2⟩ = r := Option.some.inj hr
  -- The user of the result is scheduled, so nothing is downstream but the result itself.
  rcases hx.cases_head with rfl | ⟨y, ⟨c, hc, hchunk, -⟩, -⟩
  · rw [Program.carriers, Program.carriers, users_staged_passed 3 hthree, users_staged_passed 7 hseven]
  · rw [users_staged_passed 3 hthree, List.mem_singleton] at hc
    rw [hc] at hchunk
    exact absurd hchunk (by decide)

/-- The receive of `overlap` on rank 2 has the same chunk whether the first user has the chunk 3 or 7. -/
theorem receive_scheduled_staged : clash? overlap.pairs = none ∧ roleOf overlap.pairs 2 = .receiver 0 ∧
    ¬overlap.type.Dynamic ∧ (staged 3).Reachable ∧
    ∃ chunk, Worker.ReceivesWith { program := staged 3 } 2 {} overlap chunk ∧
      (staged 3).Receiving overlap.value overlap.dst.mesh chunk ∧
      Worker.ReceivesWith { program := staged 7 } 2 {} overlap chunk := by
  have hclash : clash? overlap.pairs = none := by decide
  have hrole : roleOf overlap.pairs 2 = .receiver 0 := by decide
  have htype : ¬overlap.type.Dynamic := by decide
  obtain ⟨chunk, hreceives, hreceiving, hsame⟩ := receive_scheduled hclash hrole htype {}
    (w := { program := staged 3 }) (staged_reachable 3)
  exact ⟨hclash, hrole, htype, staged_reachable 3, chunk, hreceives, hreceiving,
    hsame { program := staged 7 } (staged_reachable 7) staged_sameStage⟩

/-- One operation uses the input and makes a value on the destination mesh of `overlap`.  It is not scheduled. -/
def lone : Program :=
  let onDestination : OpPlacement :=
    { mesh := overlap.dst.mesh, operands := [], results := [overlap.dst], chunk := unscheduled }
  Program.run {} [.addInput ⟨[4], .f32⟩ none,
    .insert { kind := .compute "a", operands := [⟨0⟩], types := [⟨[4], .f32⟩], placement := some onDestination }]

/-- The operation of `lone`. -/
def loneUser : OpId × Operation := (⟨0⟩, stagedOperation "a" [⟨0⟩] [⟨1⟩] unscheduled)

/-- A scheduled operation on another mesh that makes nothing.  It uses the input of `lone` and what its operation
makes. -/
def observer : Program.Draft where
  kind := .compute "observe"
  operands := [⟨0⟩, ⟨1⟩]
  types := []
  placement := some { mesh := Mesh.row [9] (by simp), operands := [], results := [], chunk := 5 }

theorem makesOn_loneUser : loneUser.2.MakesOn overlap.dst.mesh :=
  ⟨List.cons_ne_nil _ _, _, _, rfl, rfl, rfl⟩

theorem not_makesOn_observer : ¬(lone.draftOperation observer).MakesOn overlap.dst.mesh :=
  fun h => h.1 rfl

/-- If the operation of `lone` is the last user on the destination mesh, the receive of `overlap` on rank 2 has the
chunk downstream of what it makes. -/
theorem receivesWith_loneUser {p : Program} (hp : p.Reachable)
    (hlast : p.LastUserOn overlap.value overlap.dst.mesh loneUser) {chunk : Int}
    (hdownstream : p.chunkDownstream ⟨1⟩ = chunk) :
    Worker.ReceivesWith { program := p } 2 {} overlap chunk := by
  have hclash : clash? overlap.pairs = none := by decide
  have hrole : roleOf overlap.pairs 2 = .receiver 0 := by decide
  have htype : ¬overlap.type.Dynamic := by decide
  have hchunk : p.receivingChunk overlap.value overlap.dst.mesh = p.chunkDownstream ⟨1⟩ :=
    hp.coherent.receivingChunk_of_lastUserOn hlast rfl
  rw [← hdownstream, ← hchunk]
  exact Worker.receivesWith hclash hrole htype {} hp.coherent

/-- Behind the last user of the value on the destination mesh as well as in front of it, an operation that makes nothing
there changes the chunk of the receive: it is scheduled and uses what that user makes. -/
theorem stage_depends_on_observer :
    (clash? overlap.pairs = none ∧ roleOf overlap.pairs 2 = .receiver 0 ∧ ¬overlap.type.Dynamic) ∧
      (loneUser.2.MakesOn overlap.dst.mesh ∧ ¬(lone.draftOperation observer).MakesOn overlap.dst.mesh) ∧
      (lone.Reachable ∧ lone.users overlap.value = [loneUser] ∧
        Worker.ReceivesWith { program := lone } 2 {} overlap unscheduled) ∧
      ((lone.run [.insert observer]).users overlap.value = [loneUser, (⟨1⟩, lone.draftOperation observer)] ∧
        Worker.ReceivesWith { program := lone.run [.insert observer] } 2 {} overlap 5) ∧
      (lone.run [.before ⟨0⟩, .insert observer]).users overlap.value =
          [(⟨1⟩, lone.draftOperation observer), loneUser] ∧
        Worker.ReceivesWith { program := lone.run [.before ⟨0⟩, .insert observer] } 2 {} overlap 5 := by
  have hlone : lone.Reachable := ⟨_, rfl⟩
  have husers : lone.users overlap.value = [loneUser] := by decide
  have hbehind : (lone.run [.insert observer]).users overlap.value =
      [loneUser, (⟨1⟩, lone.draftOperation observer)] := by decide
  have hfront : (lone.run [.before ⟨0⟩, .insert observer]).users overlap.value =
      [(⟨1⟩, lone.draftOperation observer), loneUser] := by decide
  have hscheduled : (lone.draftOperation observer).chunk ≠ unscheduled := by decide
  refine ⟨⟨by decide, by decide, by decide⟩, ⟨makesOn_loneUser, not_makesOn_observer⟩, ⟨hlone, husers, ?_⟩,
    ⟨hbehind, ?_⟩, hfront, ?_⟩
  · have hunused : lone.users ⟨1⟩ = [] := by decide
    have hlast : lone.LastUserOn overlap.value overlap.dst.mesh loneUser :=
      ⟨[], [], husers, makesOn_loneUser, List.forall_mem_nil _⟩
    exact receivesWith_loneUser hlone hlast (Program.chunkDownstream_of_unused hunused)
  · have hobserved : (lone.run [.insert observer]).users ⟨1⟩ = [] ++ [(⟨1⟩, lone.draftOperation observer)] := by decide
    have hlast : (lone.run [.insert observer]).LastUserOn overlap.value overlap.dst.mesh loneUser :=
      ⟨[], [_], hbehind, makesOn_loneUser, List.forall_mem_singleton.2 not_makesOn_observer⟩
    exact receivesWith_loneUser (hlone.run _) hlast
      (Program.chunkDownstream_of_user hobserved (List.forall_mem_nil _) hscheduled)
  · have hobserved : (lone.run [.before ⟨0⟩, .insert observer]).users ⟨1⟩ =
        [] ++ [(⟨1⟩, lone.draftOperation observer)] := by decide
    have hlast : (lone.run [.before ⟨0⟩, .insert observer]).LastUserOn overlap.value overlap.dst.mesh loneUser :=
      ⟨[_], [], hfront, makesOn_loneUser, List.forall_mem_nil _⟩
    exact receivesWith_loneUser (hlone.run _) hlast
      (Program.chunkDownstream_of_user hobserved (List.forall_mem_nil _) hscheduled)

end CrossMesh
