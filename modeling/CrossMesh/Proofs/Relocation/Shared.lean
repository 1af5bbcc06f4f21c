import CrossMesh.Proofs.Relocation.Matching

/-!
# Ranks that share a table of groups

Ranks that relocate one after the other and share a table of groups get numbers that depend on who comes first, since a
group is made for whoever requests it first.  The two ranks of a pair agree nevertheless: from opposite roles they
request the same ranks in the same order, and the table answers every such request with the group it made for the first
(`shared_groups_agree`).  Which groups there are in the end does not depend on the order of the ranks.
-/

namespace CrossMesh

/-! ### Turns -/

/-- Ranks with a program each and one table of groups for all. -/
structure Crew where
  programs : Rank → Program
  groups : Groups

namespace Crew

def worker (c : Crew) (rank : Rank) : Worker where
  program := c.programs rank
  groups := c.groups

/-- The crew after the turn of a rank, which relocates with the groups that are there. -/
def turn (config : Config) (m : Relocation) (c : Crew) (rank : Rank) : Crew where
  programs := Function.update c.programs rank ((c.worker rank).relocated rank config m).program
  groups := ((c.worker rank).relocated rank config m).groups

/-- The crew after the turns of some ranks that start with a copy of `p` each and with the groups `t`. -/
def relocated (p : Program) (t : Groups) (config : Config) (m : Relocation) (ranks : List Rank) : Crew :=
  ranks.foldl (turn config m) { programs := fun _ => p, groups := t }

/-- The operations that a rank has beyond those of the program `p` it started with. -/
def added (c : Crew) (p : Program) (rank : Rank) : List (OpId × Operation) :=
  (c.programs rank).liveBetween p.ops.size (c.programs rank).ops.size

theorem programs_turn_self (c : Crew) (config : Config) (m : Relocation) (rank : Rank) :
    (c.turn config m rank).programs rank = ((c.worker rank).relocated rank config m).program :=
  Function.update_self ..

theorem programs_turn_of_ne (c : Crew) (config : Config) (m : Relocation) {rank r : Rank} (h : r ≠ rank) :
    (c.turn config m rank).programs r = c.programs r :=
  Function.update_of_ne h ..

end Crew

/-- The member lists of the channels that a rank requests for a relocation. -/
def Relocation.requests (m : Relocation) (config : Config) (rank : Rank) : List (List Rank) :=
  channels m.pairs (some rank) config.eagerReverse ++ (roleOf m.pairs rank).channels rank

/-! ### What the ranks did so far -/

/-- The ranks of `done` did their part with the groups of the crew, which are those that were requested; the others did
nothing yet. -/
structure Crew.Done (p : Program) (t : Groups) (config : Config) (m : Relocation) (done : List Rank) (c : Crew) :
    Prop where
  groups_eq : c.groups = t.requestAll (done.flatMap (m.requests config))
  part : ∀ rank ∈ done, ∃ ds v,
    m.Part p c.groups rank config (roleOf m.pairs rank) ds v ∧ c.programs rank = p.placeAll ds
  waiting : ∀ rank ∉ done, c.programs rank = p

namespace Crew

variable {p : Program} {t : Groups} {config : Config} {m : Relocation} {ranks : List Rank} {rank : Rank} {c : Crew}

private theorem notMem_of_nodup_append_cons {before after : List Rank} (h : (before ++ rank :: after).Nodup) :
    rank ∉ before :=
  fun hmem => (List.nodup_cons.1 (List.nodup_middle.1 h)).1 (List.mem_append_left _ hmem)

/-- A turn succeeds and adds the rank to those that are done. -/
theorem Done.turn (h : Done p t config m ranks c) (hm : m.src.Relocatable m.dst) (hvalue : p.Available m.value)
    (htype : ¬m.type.Dynamic) (hrank : rank ∉ ranks) :
    (∃ v, ((c.worker rank).relocateWith Strategy.defaults rank config m).1 = .ok v) ∧
      Done p t config m (ranks ++ [rank]) (c.turn config m rank) := by
  have hworker : (c.worker rank).program = p := h.waiting rank hrank
  obtain ⟨v, w', ds, hok, hgroups, hpart, hprogram⟩ :=
    Worker.exists_relocateWith hm htype (hworker ▸ hvalue) rank config
  have hafter : (c.worker rank).relocated rank config m = w' := congrArg Prod.snd hok
  have hturn : (c.turn config m rank).groups = w'.groups := congrArg Worker.groups hafter
  refine ⟨⟨v, congrArg Prod.fst hok⟩, ?_⟩
  constructor
  case groups_eq =>
    rw [List.flatMap_append, List.flatMap_singleton, Groups.requestAll_append, ← h.groups_eq]
    exact hturn.trans hgroups
  case part =>
    intro r hr
    rw [hturn]
    rcases List.mem_append.1 hr with hr | hr
    · -- An earlier rank did its part with fewer groups.
      obtain ⟨es, u, hpart', heq⟩ := h.part r hr
      have hne : r ≠ rank := fun heq => hrank (heq ▸ hr)
      have hgrown : c.groups.toList <+: w'.groups.toList := hgroups ▸ Groups.prefix_requestAll ..
      exact ⟨es, u, hpart'.mono hgrown, by rw [programs_turn_of_ne c config m hne, heq]⟩
    · obtain rfl := List.mem_singleton.1 hr
      rw [hworker] at hpart hprogram
      exact ⟨ds, v, hpart, by rw [programs_turn_self, hafter, hprogram]⟩
  case waiting =>
    intro r hr
    rw [List.mem_append, not_or, List.mem_singleton] at hr
    rw [programs_turn_of_ne c config m hr.2]
    exact h.waiting r hr.1

/-- The turns of more ranks add them to those that are done. -/
theorem Done.turns (h : Done p t config m ranks c) (hm : m.src.Relocatable m.dst) (hvalue : p.Available m.value)
    (htype : ¬m.type.Dynamic) {more : List Rank} (hnodup : (ranks ++ more).Nodup) :
    Done p t config m (ranks ++ more) (more.foldl (Crew.turn config m) c) := by
  induction more generalizing ranks c with
  | nil => simpa using h
  | cons rank more ih =>
    have hturn := h.turn hm hvalue htype (notMem_of_nodup_append_cons hnodup)
    rw [List.append_cons] at hnodup ⊢
    exact ih hturn.2 hnodup

theorem done_relocated (hm : m.src.Relocatable m.dst) (hvalue : p.Available m.value) (htype : ¬m.type.Dynamic)
    (config : Config) (hnodup : ranks.Nodup) : Done p t config m ranks (relocated p t config m ranks) :=
  Done.turns ⟨rfl, fun _ hr => absurd hr List.not_mem_nil, fun _ _ => rfl⟩ hm hvalue htype hnodup

end Crew

/-! ### The groups of sends and receives -/

/-- The groups of the sends among some operations. -/
def sendGroups (us : List (OpId × Operation)) : List Nat :=
  us.filterMap fun u =>
    match u.2.kind with
    | .send group _ _ => some group
    | _ => none

/-- The groups of the receives among some operations. -/
def receiveGroups (us : List (OpId × Operation)) : List Nat :=
  us.filterMap fun u =>
    match u.2.kind with
    | .receive group _ _ _ => some group
    | _ => none

namespace Relocation

variable {m : Relocation} {p : Program} {t : Groups} {rank peer : Rank} {config : Config} {ds : List Program.Draft}
  {v : ValueId}

theorem Part.sendGroups (h : m.Part p t rank config (.sender peer) ds v) :
    ∃ g, t.find? [rank, peer] .pointToPoint = some g ∧ sendGroups (p.placed ds) = [g.id] := by
  cases h with
  | sender hg hchunk => exact ⟨_, hg, rfl⟩

theorem Part.receiveGroups (h : m.Part p t rank config (.receiver peer) ds v) :
    ∃ g, t.find? [peer, rank] .pointToPoint = some g ∧ receiveGroups (p.placed ds) = [g.id] := by
  cases h with
  | receiver hg htype => exact ⟨_, hg, rfl⟩

end Relocation

namespace Crew

variable {p : Program} {t : Groups} {config : Config} {m : Relocation} {ranks : List Rank} {rank : Rank} {c : Crew}

/-- The send of each pair of two ranks and its receive name the group of these two ranks. -/
def Connected (c : Crew) (p : Program) (m : Relocation) : Prop :=
  ∀ a b, (a, b) ∈ m.pairs → a ≠ b → ∃ g, c.groups.find? [a, b] .pointToPoint = some g ∧
    sendGroups (c.added p a) = [g.id] ∧ receiveGroups (c.added p b) = [g.id]

theorem Done.added (h : Done p t config m ranks c) (hp : p.Coherent) (hrank : rank ∈ ranks) :
    ∃ ds v, m.Part p c.groups rank config (roleOf m.pairs rank) ds v ∧ c.added p rank = p.placed ds := by
  obtain ⟨ds, v, hpart, heq⟩ := h.part rank hrank
  refine ⟨ds, v, hpart, ?_⟩
  rw [Crew.added, heq]
  exact hp.liveBetween_placeAll hpart.accepts

/-- Once the ranks of both meshes are done, the two ranks of every pair are connected. -/
theorem Done.connected (h : Done p t config m ranks c) (hp : p.Coherent) (hm : m.src.Relocatable m.dst)
    (hranks : ∀ r, r ∈ m.src.mesh ∨ r ∈ m.dst.mesh → r ∈ ranks) : c.Connected p m := by
  intro a b hab hne
  have hpairs := Relocation.pairwise_apart hm
  obtain ⟨hsrc, hdst⟩ := List.of_mem_zip hab
  obtain ⟨ds, v, hpart, hadded⟩ := h.added hp (hranks a (.inl hsrc))
  obtain ⟨ds', v', hpart', hadded'⟩ := h.added hp (hranks b (.inr hdst))
  rw [(roleOf_eq_sender_iff hpairs).2 ⟨hab, Ne.symm hne⟩] at hpart
  rw [(roleOf_eq_receiver_iff hpairs).2 ⟨hab, hne⟩] at hpart'
  obtain ⟨g, hg, hsends⟩ := hpart.sendGroups
  obtain ⟨g', hg', hreceives⟩ := hpart'.receiveGroups
  obtain rfl := Option.some.inj (hg.symm.trans hg')
  exact ⟨g, hg, by rw [hadded, hsends], by rw [hadded', hreceives]⟩

/-- The sends of two pairs name two groups. -/
theorem Connected.eq_of_sendGroups_eq (h : c.Connected p m) (ht : c.groups.Numbered) {a b a' b' : Rank}
    (hab : (a, b) ∈ m.pairs) (hne : a ≠ b) (hab' : (a', b') ∈ m.pairs) (hne' : a' ≠ b')
    (heq : sendGroups (c.added p a) = sendGroups (c.added p a')) : a = a' ∧ b = b' := by
  obtain ⟨g, hg, hsends, -⟩ := h a b hab hne
  obtain ⟨g', hg', hsends', -⟩ := h a' b' hab' hne'
  obtain ⟨hmem, hmembers, -⟩ := Groups.find?_eq_some hg
  obtain ⟨hmem', hmembers', -⟩ := Groups.find?_eq_some hg'
  have hid : g.id = g'.id := List.singleton_inj.1 (hsends.symm.trans (heq.trans hsends'))
  obtain rfl := List.inj_on_of_nodup_map ht.nodup_ids hmem hmem' hid
  simpa using hmembers.symm.trans hmembers'

end Crew

/-- Distinct ranks, among them all ranks of both meshes, relocate a value one after the other, each on its own copy of a
program and all with one table of groups.  All succeed.  The send and the receive of each pair name the group of its
two ranks, in the order from the sender to the receiver, and two pairs have two groups.  All groups that were there
before stay what they were.  In whatever order the ranks come, there are the same groups in the end. -/
theorem shared_groups_agree {p : Program} (hp : p.Reachable) {t : Groups} (ht : t.Reachable) {m : Relocation}
    (hm : m.src.Relocatable m.dst) (hvalue : p.Available m.value) (htype : ¬m.type.Dynamic) (config : Config)
    {ranks : List Rank} (hnodup : ranks.Nodup) (hranks : ∀ r, r ∈ m.src.mesh ∨ r ∈ m.dst.mesh → r ∈ ranks) :
    (∀ before rank after, ranks = before ++ rank :: after → ∃ v,
      (((Crew.relocated p t config m before).worker rank).relocateWith Strategy.defaults rank config m).1 = .ok v) ∧
      (Crew.relocated p t config m ranks).Connected p m ∧
      (∀ a b a' b', (a, b) ∈ m.pairs → a ≠ b → (a', b') ∈ m.pairs → a' ≠ b' →
        sendGroups ((Crew.relocated p t config m ranks).added p a) =
          sendGroups ((Crew.relocated p t config m ranks).added p a') → a = a' ∧ b = b') ∧
      t.toList <+: (Crew.relocated p t config m ranks).groups.toList ∧
      ∀ others, others.Perm ranks →
        ((Crew.relocated p t config m others).groups.toList.map Groups.key).Perm
            ((Crew.relocated p t config m ranks).groups.toList.map Groups.key) ∧
          (Crew.relocated p t config m others).groups.size = (Crew.relocated p t config m ranks).groups.size := by
  have hdone : ∀ {ranks : List Rank}, ranks.Nodup → Crew.Done p t config m ranks (Crew.relocated p t config m ranks) :=
    Crew.done_relocated hm hvalue htype config
  have hgroups := (hdone hnodup).groups_eq
  have hconnected := (hdone hnodup).connected hp.coherent hm hranks
  have hnumbered : (Crew.relocated p t config m ranks).groups.Numbered := hgroups ▸ ht.numbered.requestAll _
  refine ⟨?_, hconnected, fun a b a' b' => hconnected.eq_of_sendGroups_eq hnumbered, ?_, ?_⟩
  · rintro before rank after rfl
    have hbefore : before.Nodup := (List.nodup_append.1 hnodup).1
    exact ((hdone hbefore).turn hm hvalue htype (Crew.notMem_of_nodup_append_cons hnodup)).1
  · rw [hgroups]
    exact Groups.prefix_requestAll ..
  · intro others hperm
    have hkeys : ((Crew.relocated p t config m others).groups.toList.map Groups.key).Perm
        ((Crew.relocated p t config m ranks).groups.toList.map Groups.key) := by
      rw [(hdone (hperm.nodup_iff.2 hnodup)).groups_eq, hgroups]
      exact ht.numbered.keys_requestAll_perm (hperm.flatMap_right _)
    exact ⟨hkeys, by simpa [Groups.size] using hkeys.length_eq⟩

/-- The ranks of `overlap` and a bystander, the receiver first, share a table with a group of another kind. -/
theorem shared_groups_agree_overlap :
    overlap.src.Relocatable overlap.dst ∧ (0, 2) ∈ overlap.pairs ∧
      (Crew.relocated Program.forked (Groups.request {} [0, 2] .collective).2 {} overlap [2, 7, 0, 1]).Connected
        Program.forked overlap :=
  ⟨overlap_relocatable, by decide, (shared_groups_agree Program.forked_reachable
    (t := (Groups.request {} [0, 2] .collective).2) ⟨[.request [0, 2] .collective], rfl⟩ overlap_relocatable
    Program.forked_available (by decide) {} (by decide) fun r hr => by
      have := mem_ranks_of_overlap r hr
      grind).2.1⟩

end CrossMesh
