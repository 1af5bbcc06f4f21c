import CrossMesh.Proofs.Groups.Reachable
import CrossMesh.Proofs.Program.Reachable
import CrossMesh.Proofs.Transfer.Roles

/-!
# Sends and receives of a relocation match

When every rank runs the same relocation on its own copy of a program, with whatever groups it made before, the sends
that the ranks insert are the pairs of two ranks, each once, and so are the receives (`relocations_match`).  A send
and a receive only name a group and a place in it; what ranks they mean is read from the groups of the worker that
runs them.  The two agree because the roles do: a rank sends to another exactly when the other receives from it
(`sender_iff_receiver`).
-/

namespace CrossMesh

/-! ### Suitable placements -/

namespace Relocation

variable {m : Relocation}

theorem pairwise_apart (hm : m.src.Relocatable m.dst) : m.pairs.Pairwise Apart :=
  clash?_eq_none_iff.1 hm.2.2.2

theorem length_ids_eq (hm : m.src.Relocatable m.dst) : m.src.mesh.ids.length = m.dst.mesh.ids.length :=
  Mesh.length_ids_of_shape_eq hm.2.2.1

/-- Meshes of one shape pair every rank up, so a bystander is in neither. -/
theorem notMem_of_bystander (hm : m.src.Relocatable m.dst) {rank : Rank} (h : roleOf m.pairs rank = .bystander) :
    rank ∉ m.src.mesh ∧ rank ∉ m.dst.mesh := by
  have hlen := length_ids_eq hm
  -- The meshes have as many ranks each, so every position of the one is a position of the other.
  have hpair : ∀ i (hs : i < m.src.mesh.ids.length) (hd : i < m.dst.mesh.ids.length),
      (m.src.mesh.ids[i], m.dst.mesh.ids[i]) ∈ m.pairs := by
    intro i hs hd
    refine List.mem_iff_getElem.2 ⟨i, ?_, List.getElem_zip⟩
    show i < (m.src.mesh.ids.zip m.dst.mesh.ids).length
    rw [List.length_zip]
    omega
  have hnone := roleOf_eq_bystander_iff.1 h
  constructor
  · intro hrank
    obtain ⟨i, hs, hi⟩ := List.mem_iff_getElem.1 (Mesh.mem_iff.1 hrank)
    exact (hnone _ (hpair i hs (by omega))).1 hi
  · intro hrank
    obtain ⟨i, hd, hi⟩ := List.mem_iff_getElem.1 (Mesh.mem_iff.1 hrank)
    exact (hnone _ (hpair i (by omega) hd)).2 hi

end Relocation

/-- Between suitable placements every rank succeeds and does the part of its role. -/
theorem Worker.exists_relocateWith {m : Relocation} (hm : m.src.Relocatable m.dst) (htype : ¬m.type.Dynamic)
    {w : Worker} (hvalue : w.program.Available m.value) (rank : Rank) (config : Config) : ∃ v w' ds,
      w.relocateWith Strategy.defaults rank config m = (.ok v, w') ∧
        w'.groups = w.groups.requestAll
          (channels m.pairs (some rank) config.eagerReverse ++ (roleOf m.pairs rank).channels rank) ∧
        m.Part w.program w'.groups rank config (roleOf m.pairs rank) ds v ∧
        w'.program = w.program.placeAll ds := by
  rw [relocateWith_defaults hm]
  obtain ⟨v, w', hok⟩ := exists_relocate (w.note (.strategyChosen m.value "same_status")) rank config hm.2.2.2
    hvalue (fun _ _ => htype) (Relocation.notMem_of_bystander hm)
  obtain ⟨-, hgroups, ds, hpart, hprogram⟩ := relocate_eq_ok hok
  exact ⟨v, w', ds, hok, hgroups, hpart, hprogram⟩

/-! ### Edges -/

/-- The edges, from the sender to the receiver, of the sends among some operations of a rank with the groups `t`. -/
def sendEdges (t : Groups) (rank : Rank) (us : List (OpId × Operation)) : List (Option Rank × Option Rank) :=
  us.filterMap fun u =>
    match u.2.kind with
    | .send group peer _ => some (some rank, t.member? group peer)
    | _ => none

/-- The edges, from the sender to the receiver, of the receives among some operations of a rank with the groups `t`. -/
def receiveEdges (t : Groups) (rank : Rank) (us : List (OpId × Operation)) : List (Option Rank × Option Rank) :=
  us.filterMap fun u =>
    match u.2.kind with
    | .receive group peer _ _ => some (t.member? group peer, some rank)
    | _ => none

/-- The edges of a relocation: its pairs of two ranks. -/
def Relocation.edges (m : Relocation) : List (Option Rank × Option Rank) :=
  (m.pairs.filter fun a => a.1 ≠ a.2).map fun a => (some a.1, some a.2)

/-- The edge that a role sends over. -/
def Role.sends (rank : Rank) : Role → List (Option Rank × Option Rank)
  | sender peer => [(some rank, some peer)]
  | _ => []

/-- The edge that a role receives over. -/
def Role.receives (rank : Rank) : Role → List (Option Rank × Option Rank)
  | receiver peer => [(some peer, some rank)]
  | _ => []

section Part

variable {m : Relocation} {p : Program} {t : Groups} {rank : Rank} {config : Config} {role : Role}
  {ds : List Program.Draft} {v : ValueId}

theorem Relocation.Part.sendEdges (h : m.Part p t rank config role ds v) (ht : t.Numbered) :
    sendEdges t rank (p.placed ds) = role.sends rank := by
  cases h with
  | @sender peer g chunk hg hchunk =>
    show [(some rank, t.member? g.id 1)] = _
    rw [ht.member?_find? hg]
    rfl
  | receiver hg htype => rfl
  | stationary => rfl
  | bystander hsrc hdst hvalue => rfl

theorem Relocation.Part.receiveEdges (h : m.Part p t rank config role ds v) (ht : t.Numbered) :
    receiveEdges t rank (p.placed ds) = role.receives rank := by
  cases h with
  | sender hg hchunk => rfl
  | @receiver peer g hg htype =>
    show [(t.member? g.id 0, some rank)] = _
    rw [ht.member?_find? hg]
    rfl
  | stationary => rfl
  | bystander hsrc hdst hvalue => rfl

end Part

/-! ### All ranks -/

section Ranks

variable {m : Relocation} {ranks : List Rank}

theorem Relocation.mem_edges_iff {e : Option Rank × Option Rank} :
    e ∈ m.edges ↔ ∃ a b, (a, b) ∈ m.pairs ∧ b ≠ a ∧ e = (some a, some b) := by
  unfold edges
  rw [List.mem_map]
  constructor
  · rintro ⟨⟨a, b⟩, hab, rfl⟩
    obtain ⟨hmem, hne⟩ := List.mem_filter.1 hab
    exact ⟨a, b, hmem, Ne.symm (of_decide_eq_true hne), rfl⟩
  · rintro ⟨a, b, hmem, hne, rfl⟩
    exact ⟨(a, b), List.mem_filter.2 ⟨hmem, decide_eq_true (Ne.symm hne)⟩, rfl⟩

theorem Relocation.nodup_edges (hm : m.src.Relocatable m.dst) : m.edges.Nodup := by
  have hpairs : m.pairs.Nodup := (pairwise_apart hm).imp fun hab heq => hab.1 (congrArg Prod.fst heq)
  refine (hpairs.filter _).map fun a b hab => ?_
  obtain ⟨h₁, h₂⟩ := Prod.mk.inj hab
  exact Prod.ext (Option.some.inj h₁) (Option.some.inj h₂)

/-- If every rank has the edges at one end of which it stands, all ranks together have all edges, each once. -/
private theorem flatMap_perm_edges (hm : m.src.Relocatable m.dst) (hnodup : ranks.Nodup)
    {edgesOf : Rank → List (Option Rank × Option Rank)} (standing : Option Rank × Option Rank → Option Rank)
    (honce : ∀ r, (edgesOf r).Nodup) (hmem : ∀ r e, e ∈ edgesOf r ↔ e ∈ m.edges ∧ standing e = some r)
    (hranks : ∀ e ∈ m.edges, ∃ r ∈ ranks, standing e = some r) : (ranks.flatMap edgesOf).Perm m.edges := by
  -- Two ranks have no edge in common, since only one of them stands at its end.
  have hdistinct : (ranks.flatMap edgesOf).Nodup := by
    refine List.nodup_flatMap.2 ⟨fun r _ => honce r, hnodup.imp fun hne e he he' => ?_⟩
    have h := ((hmem _ e).1 he).2
    have h' := ((hmem _ e).1 he').2
    exact hne (Option.some.inj (h.symm.trans h'))
  refine (List.perm_ext_iff_of_nodup hdistinct (Relocation.nodup_edges hm)).2 fun e => ?_
  rw [List.mem_flatMap]
  constructor
  · rintro ⟨r, -, he⟩
    exact ((hmem r e).1 he).1
  · intro he
    obtain ⟨r, hr, hstanding⟩ := hranks e he
    exact ⟨r, hr, (hmem r e).2 ⟨he, hstanding⟩⟩

theorem mem_sends_iff (hm : m.src.Relocatable m.dst) {r : Rank} {e : Option Rank × Option Rank} :
    e ∈ (roleOf m.pairs r).sends r ↔ e ∈ m.edges ∧ e.1 = some r := by
  have hsends : e ∈ (roleOf m.pairs r).sends r ↔
      ∃ peer, roleOf m.pairs r = .sender peer ∧ e = (some r, some peer) := by
    cases roleOf m.pairs r <;> simp [Role.sends]
  rw [hsends, Relocation.mem_edges_iff]
  constructor
  · rintro ⟨peer, hrole, rfl⟩
    obtain ⟨hmem, hne⟩ := (roleOf_eq_sender_iff (Relocation.pairwise_apart hm)).1 hrole
    exact ⟨⟨r, peer, hmem, hne, rfl⟩, rfl⟩
  · rintro ⟨⟨a, b, hmem, hne, rfl⟩, hr⟩
    obtain rfl := Option.some.inj hr
    exact ⟨b, (roleOf_eq_sender_iff (Relocation.pairwise_apart hm)).2 ⟨hmem, hne⟩, rfl⟩

theorem mem_receives_iff (hm : m.src.Relocatable m.dst) {r : Rank} {e : Option Rank × Option Rank} :
    e ∈ (roleOf m.pairs r).receives r ↔ e ∈ m.edges ∧ e.2 = some r := by
  have hreceives : e ∈ (roleOf m.pairs r).receives r ↔
      ∃ peer, roleOf m.pairs r = .receiver peer ∧ e = (some peer, some r) := by
    cases roleOf m.pairs r <;> simp [Role.receives]
  rw [hreceives, Relocation.mem_edges_iff]
  constructor
  · rintro ⟨peer, hrole, rfl⟩
    obtain ⟨hmem, hne⟩ := (roleOf_eq_receiver_iff (Relocation.pairwise_apart hm)).1 hrole
    exact ⟨⟨peer, r, hmem, Ne.symm hne, rfl⟩, rfl⟩
  · rintro ⟨⟨a, b, hmem, hne, rfl⟩, hr⟩
    obtain rfl := Option.some.inj hr
    exact ⟨a, (roleOf_eq_receiver_iff (Relocation.pairwise_apart hm)).2 ⟨hmem, Ne.symm hne⟩, rfl⟩

/-- The edges that all ranks send over are those of the relocation. -/
theorem sends_perm (hm : m.src.Relocatable m.dst) (hnodup : ranks.Nodup)
    (hranks : ∀ r, r ∈ m.src.mesh ∨ r ∈ m.dst.mesh → r ∈ ranks) :
    (ranks.flatMap fun r => (roleOf m.pairs r).sends r).Perm m.edges := by
  refine flatMap_perm_edges hm hnodup Prod.fst (fun r => ?_) (fun r e => mem_sends_iff hm) ?_
  · cases roleOf m.pairs r <;> simp [Role.sends]
  · intro e he
    obtain ⟨a, b, hmem, -, rfl⟩ := Relocation.mem_edges_iff.1 he
    exact ⟨a, hranks a (.inl (List.of_mem_zip hmem).1), rfl⟩

/-- The edges that all ranks receive over are those of the relocation. -/
theorem receives_perm (hm : m.src.Relocatable m.dst) (hnodup : ranks.Nodup)
    (hranks : ∀ r, r ∈ m.src.mesh ∨ r ∈ m.dst.mesh → r ∈ ranks) :
    (ranks.flatMap fun r => (roleOf m.pairs r).receives r).Perm m.edges := by
  refine flatMap_perm_edges hm hnodup Prod.snd (fun r => ?_) (fun r e => mem_receives_iff hm) ?_
  · cases roleOf m.pairs r <;> simp [Role.receives]
  · intro e he
    obtain ⟨a, b, hmem, -, rfl⟩ := Relocation.mem_edges_iff.1 he
    exact ⟨b, hranks b (.inr (List.of_mem_zip hmem).2), rfl⟩

end Ranks

/-! ### One relocation on every rank -/

namespace Worker

/-- The worker of a rank after a relocation with the default strategies. -/
def relocated (w : Worker) (rank : Rank) (config : Config) (m : Relocation) : Worker :=
  (w.relocateWith Strategy.defaults rank config m).2

/-- The operations that a relocation adds to the program of a rank. -/
def relocating (w : Worker) (rank : Rank) (config : Config) (m : Relocation) : List (OpId × Operation) :=
  (w.relocated rank config m).program.liveBetween w.program.ops.size (w.relocated rank config m).program.ops.size

/-- The edges that the operations a relocation adds on a rank stand for are those of its role. -/
theorem edges_of_relocate_eq_ok {m : Relocation} {w w' : Worker} {rank : Rank} {config : Config} {v : ValueId}
    (h : w.relocate rank config m = (.ok v, w')) (hprogram : w.program.Coherent) (hgroups : w.groups.Numbered) :
    sendEdges w'.groups rank (w'.program.liveBetween w.program.ops.size w'.program.ops.size) =
        (roleOf m.pairs rank).sends rank ∧
      receiveEdges w'.groups rank (w'.program.liveBetween w.program.ops.size w'.program.ops.size) =
        (roleOf m.pairs rank).receives rank := by
  obtain ⟨-, hgroups', ds, hpart, hprogram'⟩ := relocate_eq_ok h
  have hnumbered : w'.groups.Numbered := hgroups' ▸ hgroups.requestAll _
  rw [hprogram', hprogram.liveBetween_placeAll hpart.accepts]
  exact ⟨hpart.sendEdges hnumbered, hpart.receiveEdges hnumbered⟩

/-- The channel that a role requests has its peer at the place that its send or receive names. -/
def PeerPlaced (w : Worker) (rank : Rank) : Role → Prop
  | .sender peer => (w.request [rank, peer] .pointToPoint).1.localRank? peer = some 1
  | .receiver peer => (w.request [peer, rank] .pointToPoint).1.localRank? peer = some 0
  | .stationary => True
  | .bystander => True

/-- A request answers with a group of the ranks it was made for, new or not. -/
theorem ranks_request (w : Worker) (ranks : List Rank) (kind : GroupKind) : (w.request ranks kind).1.ranks = ranks := by
  obtain ⟨journal, heq⟩ := request_eq w ranks kind
  rw [heq]
  exact (Groups.find?_eq_some (Groups.find?_request w.groups ranks kind)).2.1

theorem peerPlaced_roleOf {m : Relocation} (hm : m.src.Relocatable m.dst) (w : Worker) (rank : Rank) :
    w.PeerPlaced rank (roleOf m.pairs rank) := by
  cases hrole : roleOf m.pairs rank with
  | sender peer =>
    obtain ⟨-, hne⟩ := (roleOf_eq_sender_iff (Relocation.pairwise_apart hm)).1 hrole
    show List.idxOf? peer (w.request [rank, peer] .pointToPoint).1.ranks = some 1
    rw [ranks_request]
    simp [List.idxOf?_cons, Ne.symm hne]
  | receiver peer =>
    show List.idxOf? peer (w.request [peer, rank] .pointToPoint).1.ranks = some 0
    rw [ranks_request]
    simp [List.idxOf?_cons]
  | stationary => trivial
  | bystander => trivial

/-- A relocation adds the operations of the rank's part. -/
theorem exists_relocating {m : Relocation} (hm : m.src.Relocatable m.dst) (htype : ¬m.type.Dynamic) {w : Worker}
    (hprogram : w.program.Coherent) (hvalue : w.program.Available m.value) (rank : Rank) (config : Config) : ∃ v ds,
    (w.relocateWith Strategy.defaults rank config m).1 = .ok v ∧
      m.Part w.program (w.relocated rank config m).groups rank config (roleOf m.pairs rank) ds v ∧
      (w.relocated rank config m).program = w.program.placeAll ds ∧
      w.relocating rank config m = w.program.placed ds := by
  obtain ⟨v, w', ds, hok, -, hpart, hprogram'⟩ := exists_relocateWith hm htype hvalue rank config
  have hafter : w.relocated rank config m = w' := congrArg Prod.snd hok
  rw [← hafter] at hpart hprogram'
  refine ⟨v, ds, congrArg Prod.fst hok, hpart, hprogram', ?_⟩
  rw [relocating, hprogram']
  exact hprogram.liveBetween_placeAll hpart.accepts

/-- What a relocation that succeeds adds on a rank stands for the edges of the rank's role. -/
theorem edges_of_relocateWith_eq_ok {m : Relocation} (hm : m.src.Relocatable m.dst) {w : Worker} {rank : Rank}
    {config : Config} {v : ValueId} (hok : (w.relocateWith Strategy.defaults rank config m).1 = .ok v)
    (hprogram : w.program.Coherent) (hgroups : w.groups.Numbered) :
    sendEdges (w.relocated rank config m).groups rank (w.relocating rank config m) = (roleOf m.pairs rank).sends rank ∧
      receiveEdges (w.relocated rank config m).groups rank (w.relocating rank config m) =
        (roleOf m.pairs rank).receives rank := by
  have hrelocated : (w.note (.strategyChosen m.value "same_status")).relocate rank config m =
      (.ok v, w.relocated rank config m) := by
    rw [← relocateWith_defaults hm]
    exact Prod.ext hok rfl
  exact edges_of_relocate_eq_ok (w := w.note (.strategyChosen m.value "same_status")) hrelocated hprogram hgroups

theorem edges_relocating {m : Relocation} (hm : m.src.Relocatable m.dst) (htype : ¬m.type.Dynamic) {w : Worker}
    (hprogram : w.program.Coherent) (hgroups : w.groups.Numbered) (hvalue : w.program.Available m.value) (rank : Rank)
    (config : Config) :
    sendEdges (w.relocated rank config m).groups rank (w.relocating rank config m) = (roleOf m.pairs rank).sends rank ∧
      receiveEdges (w.relocated rank config m).groups rank (w.relocating rank config m) =
        (roleOf m.pairs rank).receives rank := by
  obtain ⟨v, w', ds, hok, -⟩ := exists_relocateWith hm htype hvalue rank config
  exact edges_of_relocateWith_eq_ok hm (congrArg Prod.fst hok) hprogram hgroups

end Worker

/-- When every rank of a list with all ranks of both meshes relocates a value on its own copy of a program, every rank
succeeds.  The sends and the receives that the ranks add stand for the pairs of two ranks, each for each pair once,
and no rank adds two of them.  On the way every channel has the peer at the place that is named. -/
theorem relocations_match {p : Program} (hp : p.Reachable) {m : Relocation} (hm : m.src.Relocatable m.dst)
    (hvalue : p.Available m.value) (htype : ¬m.type.Dynamic) (config : Config) {ranks : List Rank}
    (hnodup : ranks.Nodup) (hranks : ∀ r, r ∈ m.src.mesh ∨ r ∈ m.dst.mesh → r ∈ ranks) (workers : Rank → Worker)
    (hworkers : ∀ r ∈ ranks, (workers r).program = p ∧ (workers r).groups.Reachable) :
    (∀ r ∈ ranks, ∃ v, ((workers r).relocateWith Strategy.defaults r config m).1 = .ok v) ∧
      (ranks.flatMap fun r => sendEdges ((workers r).relocated r config m).groups r
        ((workers r).relocating r config m)).Perm m.edges ∧
      (ranks.flatMap fun r => receiveEdges ((workers r).relocated r config m).groups r
        ((workers r).relocating r config m)).Perm m.edges ∧
      m.edges.Nodup ∧
      (∀ r ∈ ranks, (sendEdges ((workers r).relocated r config m).groups r ((workers r).relocating r config m) ++
        receiveEdges ((workers r).relocated r config m).groups r ((workers r).relocating r config m)).length ≤ 1) ∧
      ∀ r ∈ ranks,
        (((workers r).note (.strategyChosen m.value Strategy.sameLayout.name)).prepared r config m).PeerPlaced r
          (roleOf m.pairs r) := by
  have hedges : ∀ r ∈ ranks,
      sendEdges ((workers r).relocated r config m).groups r ((workers r).relocating r config m) =
          (roleOf m.pairs r).sends r ∧
        receiveEdges ((workers r).relocated r config m).groups r ((workers r).relocating r config m) =
          (roleOf m.pairs r).receives r := by
    intro r hr
    obtain ⟨rfl, hgroups⟩ := hworkers r hr
    exact Worker.edges_relocating hm htype hp.coherent hgroups.numbered hvalue r config
  refine ⟨fun r hr => ?_, ?_, ?_, Relocation.nodup_edges hm, fun r hr => ?_, fun r _ => ?_⟩
  · obtain ⟨rfl, -⟩ := hworkers r hr
    obtain ⟨v, ds, hok, -⟩ := Worker.exists_relocating hm htype hp.coherent hvalue r config
    exact ⟨v, hok⟩
  · rw [List.flatMap_congr fun r hr => (hedges r hr).1]
    exact sends_perm hm hnodup hranks
  · rw [List.flatMap_congr fun r hr => (hedges r hr).2]
    exact receives_perm hm hnodup hranks
  · rw [(hedges r hr).1, (hedges r hr).2]
    cases roleOf m.pairs r <;> simp [Role.sends, Role.receives]
  · exact Worker.peerPlaced_roleOf hm _ r

/-- A relocation of the first input from the ranks 0 and 1 to the ranks 2 and 1, of which the second keeps its data. -/
def overlap : Relocation where
  src := Placement.replicated (Mesh.row [0, 1] (by simp)) 1
  dst := Placement.replicated (Mesh.row [2, 1] (by simp)) 1
  value := ⟨0⟩
  type := ⟨[4], .f32⟩

theorem overlap_relocatable : overlap.src.Relocatable overlap.dst := by decide

theorem mem_ranks_of_overlap (r : Rank) (h : r ∈ overlap.src.mesh ∨ r ∈ overlap.dst.mesh) : r ∈ [0, 1, 2, 7] := by
  simp only [overlap, Placement.replicated, Mesh.row, Mesh.mem_iff] at h
  grind

theorem relocations_match_overlap :
    overlap.src.Relocatable overlap.dst ∧ overlap.edges = [(some 0, some 2)] ∧
      ([0, 1, 2, 7].flatMap fun r =>
        sendEdges (Worker.relocated { program := Program.forked } r {} overlap).groups r
          (Worker.relocating { program := Program.forked } r {} overlap)).Perm overlap.edges :=
  ⟨overlap_relocatable, rfl, (relocations_match Program.forked_reachable overlap_relocatable Program.forked_available
    (by decide) {} (by decide) mem_ranks_of_overlap (fun _ => { program := Program.forked })
    fun r _ => ⟨rfl, [], rfl⟩).2.1⟩

end CrossMesh
