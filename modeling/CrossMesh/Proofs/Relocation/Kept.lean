import CrossMesh.Proofs.Program.Spared
import CrossMesh.Proofs.Relocation.Matching

/-!
# Pruning keeps the communication of a relocation

A worker relocates a value, goes on to insert operations and to change placements, but not those of the operations that
the relocation added, and then prunes its program.  Its send or its receive is still there, and so is the operation
that makes the value it sends; its placeholder stays exactly if an operation that the rank runs depends on it
(`relocations_kept`).  For the pruning looks at the mesh an operation runs on, and the relocation puts the send on the
source mesh and the receive on the destination mesh.
-/

namespace CrossMesh

open Relation (TransGen)

/-! ### Sends, receives and placeholders -/

def Operation.IsSend (o : Operation) : Prop := ∃ group peer dynamicShape, o.kind = .send group peer dynamicShape

def Operation.IsReceive (o : Operation) : Prop :=
  ∃ group peer elem dynamicShape, o.kind = .receive group peer elem dynamicShape

theorem Operation.IsPlaceholder.kind_eq {o : Operation} (h : o.IsPlaceholder) :
    ∃ placement, o.kind = .placeholder placement := by
  unfold IsPlaceholder at h
  split at h
  · exact ⟨_, ‹_›⟩
  · exact absurd h id

theorem Operation.IsSend.not_isPlaceholder {o : Operation} (h : o.IsSend) : ¬o.IsPlaceholder := by
  obtain ⟨group, peer, dynamicShape, hkind⟩ := h
  intro hplaceholder
  obtain ⟨placement, hkind'⟩ := hplaceholder.kind_eq
  exact absurd (hkind.symm.trans hkind') (by simp)

theorem Operation.IsReceive.not_isPlaceholder {o : Operation} (h : o.IsReceive) : ¬o.IsPlaceholder := by
  obtain ⟨group, peer, elem, dynamicShape, hkind⟩ := h
  intro hplaceholder
  obtain ⟨placement, hkind'⟩ := hplaceholder.kind_eq
  exact absurd (hkind.symm.trans hkind') (by simp)

/-! ### What a rank adds -/

/-- A rank runs all operations it adds by a relocation, but the placeholder. -/
theorem Relocation.Part.not_foreignTo {m : Relocation} (hm : m.src.Relocatable m.dst) {p : Program} {t : Groups}
    {rank : Rank} {config : Config} {ds : List Program.Draft} {v : ValueId}
    (h : m.Part p t rank config (roleOf m.pairs rank) ds v) {u : OpId × Operation} (hu : u ∈ p.placed ds)
    (hkind : ¬u.2.IsPlaceholder) : ¬u.2.ForeignTo rank := by
  have runs : ∀ a : OpPlacement, u.2.placement = some a → rank ∈ a.mesh → ¬u.2.ForeignTo rank := by
    rintro a ha hrank (hplaceholder | ⟨b, hb, hnot⟩)
    · exact hkind hplaceholder
    · obtain rfl := Option.some.inj (ha.symm.trans hb)
      exact hnot hrank
  generalize hrole : roleOf m.pairs rank = role at h
  cases h with
  | sender hg hchunk =>
    obtain ⟨hpair, -⟩ := (roleOf_eq_sender_iff (pairwise_apart hm)).1 hrole
    rcases List.mem_cons.1 hu with rfl | hu
    · exact runs _ rfl (List.of_mem_zip hpair).1
    · obtain rfl := List.mem_singleton.1 hu
      exact absurd trivial hkind
  | receiver hg htype =>
    obtain ⟨hpair, -⟩ := (roleOf_eq_receiver_iff (pairwise_apart hm)).1 hrole
    obtain rfl := List.mem_singleton.1 hu
    exact runs _ rfl (List.of_mem_zip hpair).2
  | stationary => exact absurd hu List.not_mem_nil
  | bystander hsrc hdst hvalue =>
    obtain rfl := List.mem_singleton.1 hu
    exact absurd trivial hkind

theorem Relocation.Part.exists_send {m : Relocation} {p : Program} {t : Groups} {rank peer : Rank} {config : Config}
    {ds : List Program.Draft} {v : ValueId} (h : m.Part p t rank config (.sender peer) ds v) :
    ∃ u ∈ p.placed ds, u.2.IsSend ∧ u.2.operands = [m.value] := by
  cases h with
  | sender hg hchunk => exact ⟨_, List.mem_cons_self .., ⟨_, _, _, rfl⟩, rfl⟩

theorem Relocation.Part.exists_receive {m : Relocation} {p : Program} {t : Groups} {rank peer : Rank} {config : Config}
    {ds : List Program.Draft} {v : ValueId} (h : m.Part p t rank config (.receiver peer) ds v) :
    ∃ u ∈ p.placed ds, u.2.IsReceive := by
  cases h with
  | receiver hg htype => exact ⟨_, List.mem_cons_self .., _, _, _, _, rfl⟩

/-! ### Edges of what is left -/

section Filter

variable {t : Groups} {rank : Rank} {us : List (OpId × Operation)} {keep : OpId × Operation → Bool}
  (hkeep : ∀ u ∈ us, ¬u.2.IsPlaceholder → keep u = true)

include hkeep

private theorem filterMap_filter_of_none {α : Type} {f : OpId × Operation → Option α}
    (hf : ∀ u, u.2.IsPlaceholder → f u = none) : (us.filter keep).filterMap f = us.filterMap f := by
  rw [List.filterMap_filter]
  apply List.filterMap_congr
  intro u hu
  by_cases hkind : u.2.IsPlaceholder
  · rw [hf u hkind, ite_self]
  · rw [if_pos (hkeep u hu hkind)]

theorem sendEdges_filter : sendEdges t rank (us.filter keep) = sendEdges t rank us := by
  refine filterMap_filter_of_none hkeep fun u hkind => ?_
  obtain ⟨placement, heq⟩ := hkind.kind_eq
  rw [heq]

theorem receiveEdges_filter : receiveEdges t rank (us.filter keep) = receiveEdges t rank us := by
  refine filterMap_filter_of_none hkeep fun u hkind => ?_
  obtain ⟨placement, heq⟩ := hkind.kind_eq
  rw [heq]

end Filter

/-! ### One rank -/

namespace Worker

/-- The worker after more changes of its program. -/
def edited (w : Worker) (edits : List Program.Action) : Worker := { w with program := w.program.run edits }

/-- The worker after a relocation and more changes of its program. -/
def continued (w : Worker) (rank : Rank) (config : Config) (m : Relocation) (edits : List Program.Action) : Worker :=
  (w.relocated rank config m).edited edits

/-- The worker after a relocation, more changes of its program, and the pruning of it. -/
def finished (w : Worker) (rank : Rank) (config : Config) (m : Relocation) (edits : List Program.Action) : Worker :=
  ((w.continued rank config m edits).prune rank).2

/-- What is left of the operations of a relocation in the end. -/
def surviving (w : Worker) (rank : Rank) (config : Config) (m : Relocation) (edits : List Program.Action) :
    List (OpId × Operation) :=
  (w.finished rank config m edits).program.liveBetween w.program.ops.size (w.relocated rank config m).program.ops.size

/-- What a rank keeps of a relocation when it prunes its program after more changes. -/
structure Keeps (w : Worker) (rank : Rank) (config : Config) (m : Relocation) (edits : List Program.Action) : Prop where
  relocates : ∃ v, (w.relocateWith Strategy.defaults rank config m).1 = .ok v
  prunes : ∃ n, ((w.continued rank config m edits).prune rank).1 = .ok n
  /-- A sender keeps its send as it was inserted, and the operation that makes what it sends. -/
  send : ∀ peer, roleOf m.pairs rank = .sender peer → ∃ u ∈ w.relocating rank config m, u.2.IsSend ∧
    u ∈ (w.finished rank config m edits).program.live ∧
    ∀ v ∈ u.2.operands, ∀ d, (w.continued rank config m edits).program.definingOp v = .ok (some d) →
      ∃ o, (d, o) ∈ (w.finished rank config m edits).program.live
  /-- A receiver keeps its receive as it was inserted. -/
  receive : ∀ peer, roleOf m.pairs rank = .receiver peer → ∃ u ∈ w.relocating rank config m, u.2.IsReceive ∧
    u ∈ (w.finished rank config m edits).program.live
  /-- A placeholder stays exactly if an operation that the rank runs depends on it. -/
  placeholder : ∀ u ∈ w.relocating rank config m, u.2.IsPlaceholder →
    (u ∈ (w.finished rank config m edits).program.live ↔
      ∃ b, TransGen (w.continued rank config m edits).program.Feeds u.1 b ∧
        ∃ o, (b, o) ∈ (w.continued rank config m edits).program.live ∧ ¬o.ForeignTo rank)

section Rank

variable {m : Relocation} {w : Worker} {rank : Rank} {config : Config} {edits : List Program.Action}

/-- After more changes the operations of a relocation are still there, and only placeholders among them are pruned. -/
theorem exists_finished (hm : m.src.Relocatable m.dst) (htype : ¬m.type.Dynamic) (hprogram : w.program.Coherent)
    (hvalue : w.program.Available m.value)
    (hedits : ∀ a ∈ edits, a.Spares w.program.ops.size (w.relocated rank config m).program.ops.size) :
    (w.continued rank config m edits).program.Coherent ∧
      (w.continued rank config m edits).program.Available m.value ∧
      (w.continued rank config m edits).program.liveBetween w.program.ops.size
        (w.relocated rank config m).program.ops.size = w.relocating rank config m ∧
      ∀ u ∈ w.relocating rank config m, ¬u.2.IsPlaceholder →
        ¬(w.continued rank config m edits).program.WhollyForeign rank u.1 := by
  obtain ⟨v, ds, -, hpart, hafter, hnew⟩ := exists_relocating hm htype hprogram hvalue rank config
  have hcoherent : (w.relocated rank config m).program.Coherent := hafter ▸ hprogram.placeAll hpart.accepts
  obtain ⟨hedited, hspared⟩ := Program.Spared.run hcoherent (Nat.le_refl _) hedits
  have hold : (w.relocated rank config m).program.Available m.value := hafter ▸ hvalue.placeAll ds
  refine ⟨hedited, hspared.available hold, hspared.liveBetween_eq, fun u hu hkind hforeign => ?_⟩
  have hlive : u ∈ (w.continued rank config m edits).program.live := by
    have hu' := hu
    rw [relocating, ← hspared.liveBetween_eq] at hu'
    exact List.mem_of_mem_filter hu'
  -- Were it wholly foreign, it would be foreign itself.
  obtain ⟨⟨o, ho, hrank⟩, -⟩ := hforeign
  rw [hnew] at hu
  rw [hedited.live_unique ho hlive] at hrank
  exact hpart.not_foreignTo hm hu hkind hrank

/-- What is left in the end: all operations that were not wholly foreign. -/
theorem exists_live_finished (hcoherent : (w.continued rank config m edits).program.Coherent) : ∃ removed,
    ((w.continued rank config m edits).prune rank).1 = .ok removed.length ∧
      (w.finished rank config m edits).groups = (w.relocated rank config m).groups ∧
      (w.continued rank config m edits).program.Cleared removed (w.finished rank config m edits).program ∧
      ∀ op, op ∈ removed.map Prod.fst ↔ (w.continued rank config m edits).program.WhollyForeign rank op := by
  obtain ⟨removed, w', heq, hgroups, hcleared, hmem, -⟩ := exists_prune hcoherent rank
  have hfinished : w.finished rank config m edits = w' := congrArg Prod.snd heq
  rw [hfinished]
  exact ⟨removed, congrArg Prod.fst heq, hgroups, hcleared, hmem⟩

theorem keeps (hm : m.src.Relocatable m.dst) (htype : ¬m.type.Dynamic) (hprogram : w.program.Coherent)
    (hvalue : w.program.Available m.value)
    (hedits : ∀ a ∈ edits, a.Spares w.program.ops.size (w.relocated rank config m).program.ops.size) :
    w.Keeps rank config m edits := by
  obtain ⟨v, ds, hok, hpart, -, hnew⟩ := exists_relocating hm htype hprogram hvalue rank config
  obtain ⟨hcoherent, havailable, hbetween, hrun⟩ := exists_finished hm htype hprogram hvalue hedits
  obtain ⟨removed, hprunes, -, hcleared, hmem⟩ := exists_live_finished hcoherent
  have hlive : ∀ u ∈ w.relocating rank config m, u ∈ (w.continued rank config m edits).program.live := by
    intro u hu
    rw [← hbetween] at hu
    exact List.mem_of_mem_filter hu
  have hstays : ∀ u ∈ w.relocating rank config m, ¬u.2.IsPlaceholder →
      u ∈ (w.finished rank config m edits).program.live :=
    fun u hu hkind => hcleared.mem_iff.2 ⟨hlive u hu, fun hremoved => hrun u hu hkind ((hmem _).1 hremoved)⟩
  refine ⟨⟨v, hok⟩, ⟨_, hprunes⟩, fun peer hrole => ?_, fun peer hrole => ?_, fun u hu hkind => ?_⟩
  · rw [hrole] at hpart
    obtain ⟨u, hu, hsend, hoperands⟩ := hpart.exists_send
    rw [← hnew] at hu
    refine ⟨u, hu, hsend, hstays u hu hsend.not_isPlaceholder, fun v hv d hd => ?_⟩
    -- The operation that makes the value feeds the send, which the rank runs.
    obtain rfl := List.mem_singleton.1 (hoperands ▸ hv)
    obtain ⟨x, i, hx, horigin⟩ := Program.definingOp_eq_some_iff.1 hd
    obtain ⟨x', hx', hdefiner⟩ := havailable
    obtain rfl := Option.some.inj (hx.symm.trans hx')
    obtain ⟨o, ho⟩ := hdefiner d i horigin
    have hfeeds := hcoherent.feeds_of_origin ho (hlive u hu) hv hx horigin
    refine ⟨o, hcleared.mem_iff.2 ⟨hcoherent.mem_live_iff.2 ho, fun hremoved => ?_⟩⟩
    exact hrun u hu hsend.not_isPlaceholder (((hmem d).1 hremoved).of_feeds hfeeds)
  · rw [hrole] at hpart
    obtain ⟨u, hu, hreceive⟩ := hpart.exists_receive
    rw [← hnew] at hu
    exact ⟨u, hu, hreceive, hstays u hu hreceive.not_isPlaceholder⟩
  · rw [hcleared.mem_iff, hmem]
    constructor
    · rintro ⟨-, hnot⟩
      by_contra hnone
      refine hnot ⟨⟨u.2, hlive u hu, .inl hkind⟩, fun b o hb ho => ?_⟩
      by_contra hrank
      exact hnone ⟨b, hb, o, ho, hrank⟩
    · rintro ⟨b, hb, o, ho, hrank⟩
      exact ⟨hlive u hu, fun hforeign => hrank (hforeign.2 b o hb ho)⟩

/-- The edges that are left of a relocation on one rank are those of its role. -/
theorem edges_surviving (hm : m.src.Relocatable m.dst) (htype : ¬m.type.Dynamic) (hprogram : w.program.Coherent)
    (hgroups : w.groups.Numbered) (hvalue : w.program.Available m.value)
    (hedits : ∀ a ∈ edits, a.Spares w.program.ops.size (w.relocated rank config m).program.ops.size) :
    sendEdges (w.finished rank config m edits).groups rank (w.surviving rank config m edits) =
        (roleOf m.pairs rank).sends rank ∧
      receiveEdges (w.finished rank config m edits).groups rank (w.surviving rank config m edits) =
        (roleOf m.pairs rank).receives rank := by
  obtain ⟨hcoherent, -, hbetween, hrun⟩ := exists_finished hm htype hprogram hvalue hedits
  obtain ⟨removed, -, hgroups', hcleared, hmem⟩ := exists_live_finished hcoherent
  have hsurviving : w.surviving rank config m edits =
      (w.relocating rank config m).filter fun u => u.1 ∉ removed.map Prod.fst := by
    rw [surviving, hcleared.liveBetween, hbetween]
  have hkeep : ∀ u ∈ w.relocating rank config m, ¬u.2.IsPlaceholder →
      decide (u.1 ∉ removed.map Prod.fst) = true :=
    fun u hu hkind => decide_eq_true fun hremoved => hrun u hu hkind ((hmem _).1 hremoved)
  rw [hgroups', hsurviving, sendEdges_filter hkeep, receiveEdges_filter hkeep]
  exact edges_relocating hm htype hprogram hgroups hvalue rank config

end Rank

end Worker

/-! ### All ranks -/

/-- Every rank relocates a value on its own copy of a program, inserts more operations and changes placements, but not
those of what it just added, and prunes its program.  It keeps its part of the transfer, and the sends and receives
that are left on all ranks of a list with all ranks of both meshes still stand for the pairs of two ranks, each for
each pair once. -/
theorem relocations_kept {p : Program} (hp : p.Reachable) {m : Relocation} (hm : m.src.Relocatable m.dst)
    (hvalue : p.Available m.value) (htype : ¬m.type.Dynamic) (config : Config) (workers : Rank → Worker)
    (hworkers : ∀ r, (workers r).program = p ∧ (workers r).groups.Reachable) (edits : Rank → List Program.Action)
    (hedits : ∀ r, ∀ a ∈ edits r, a.Spares p.ops.size ((workers r).relocated r config m).program.ops.size) :
    (∀ r, (workers r).Keeps r config m (edits r)) ∧
      ∀ ranks : List Rank, ranks.Nodup → (∀ r, r ∈ m.src.mesh ∨ r ∈ m.dst.mesh → r ∈ ranks) →
        (ranks.flatMap fun r => sendEdges ((workers r).finished r config m (edits r)).groups r
            ((workers r).surviving r config m (edits r))).Perm m.edges ∧
          (ranks.flatMap fun r => receiveEdges ((workers r).finished r config m (edits r)).groups r
            ((workers r).surviving r config m (edits r))).Perm m.edges ∧
          m.edges.Nodup := by
  have hprogram : ∀ r, (workers r).program.Coherent := fun r => (hworkers r).1 ▸ hp.coherent
  have havailable : ∀ r, (workers r).program.Available m.value := fun r => (hworkers r).1 ▸ hvalue
  have hspares : ∀ r, ∀ a ∈ edits r,
      a.Spares (workers r).program.ops.size ((workers r).relocated r config m).program.ops.size := by
    intro r
    rw [(hworkers r).1]
    exact hedits r
  have hedges := fun r =>
    Worker.edges_surviving hm htype (hprogram r) (hworkers r).2.numbered (havailable r) (hspares r)
  refine ⟨fun r => Worker.keeps hm htype (hprogram r) (havailable r) (hspares r), fun ranks hnodup hranks => ?_⟩
  refine ⟨?_, ?_, Relocation.nodup_edges hm⟩
  · rw [List.flatMap_congr fun r _ => (hedges r).1]
    exact sends_perm hm hnodup hranks
  · rw [List.flatMap_congr fun r _ => (hedges r).2]
    exact receives_perm hm hnodup hranks

/-- An operation that uses what the first one of `forked` makes, and another chunk for that one. -/
def laterEdits : List Program.Action :=
  [.insert { kind := .compute "d", operands := [⟨1⟩], types := [] },
    .setPlacement ⟨0⟩ { mesh := Mesh.row [1] (by simp), operands := [], results := [], chunk := 2 }]

theorem relocations_kept_overlap :
    overlap.src.Relocatable overlap.dst ∧ (∀ r, Worker.Keeps { program := Program.forked } r {} overlap laterEdits) ∧
      ([0, 1, 2, 7].flatMap fun r =>
        receiveEdges (Worker.finished { program := Program.forked } r {} overlap laterEdits).groups r
          (Worker.surviving { program := Program.forked } r {} overlap laterEdits)).Perm overlap.edges := by
  have hedits : ∀ r : Rank, ∀ a ∈ laterEdits, a.Spares Program.forked.ops.size
      (Worker.relocated { program := Program.forked } r {} overlap).program.ops.size := by
    intro r a ha
    rcases List.mem_cons.1 ha with rfl | ha
    · trivial
    · obtain rfl := List.mem_singleton.1 ha
      exact fun h => absurd h.1 (by decide)
  have h := relocations_kept Program.forked_reachable overlap_relocatable Program.forked_available (by decide) {}
    (fun _ => { program := Program.forked }) (fun r => ⟨rfl, [], rfl⟩) (fun _ => laterEdits) hedits
  exact ⟨overlap_relocatable, h.1, (h.2 [0, 1, 2, 7] (by decide) mem_ranks_of_overlap).2.1⟩

end CrossMesh
