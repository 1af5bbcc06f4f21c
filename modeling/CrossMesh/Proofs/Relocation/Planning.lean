import CrossMesh.Proofs.Groups.History
import CrossMesh.Proofs.Groups.Provided
import CrossMesh.Proofs.Relocation.Matching
import CrossMesh.Proofs.Transfer.Channels

/-!
# Planning rank by rank

The channels of a transfer can be planned at once or by its ranks, each for itself.  Both come to the same groups if
one rank of every pair is among those that plan, in whatever order they do so, and planning again makes no further
group (`plans_add_up`).  A relocation plans the channels of its rank first and requests that of its role later, by the
role and not by the pairs.  The latter is one of the former (`channels_roleOf_subset`), so the later request is answered
with a group that is there, and a relocation leaves the groups of the plan.
-/

namespace CrossMesh

/-- The channel of a role is one of those that the rank plans. -/
theorem channels_roleOf_subset (pairs : List (Rank × Rank)) (rank : Rank) (eagerReverse : Bool) :
    (roleOf pairs rank).channels rank ⊆ channels pairs (some rank) eagerReverse := by
  intro members hmembers
  cases hrole : roleOf pairs rank with
  | sender peer =>
    rw [hrole] at hmembers
    obtain rfl := List.mem_singleton.1 hmembers
    obtain ⟨hmem, hne⟩ := mem_of_roleOf_eq_sender hrole
    exact mem_channels_iff.2 ⟨rank, peer, hmem, Ne.symm hne, concerns_some_iff.2 (.inl rfl), .inl rfl⟩
  | receiver peer =>
    rw [hrole] at hmembers
    obtain rfl := List.mem_singleton.1 hmembers
    obtain ⟨hmem, hne⟩ := mem_of_roleOf_eq_receiver hrole
    exact mem_channels_iff.2 ⟨peer, rank, hmem, hne, concerns_some_iff.2 (.inr rfl), .inl rfl⟩
  | stationary =>
    rw [hrole] at hmembers
    exact absurd hmembers List.not_mem_nil
  | bystander =>
    rw [hrole] at hmembers
    exact absurd hmembers List.not_mem_nil

/-! ### What the journal tells of the groups -/

/-- The group that an event notes as made. -/
def Event.created? : Event → Option RankGroup
  | .groupCreated g => some g
  | _ => none

/-- The events note a request for each of these channels, and as the answer to it a group that was there. -/
def Reuses (events : List Event) (members : List (List Rank)) : Prop :=
  (events.filterMap Event.answer?).map Groups.key = members.map (fun ranks => (ranks, .pointToPoint)) ∧
    ∀ g, Event.groupCreated g ∉ events

theorem Groups.map_key_answersTo (t : Groups) (members : List (List Rank)) :
    (t.answersTo members).map key = members.map fun ranks => (ranks, .pointToPoint) := by
  induction members generalizing t with
  | nil => rfl
  | cons ranks members ih =>
    obtain ⟨-, hranks, hkind⟩ := find?_eq_some (find?_request t ranks .pointToPoint)
    exact congrArg₂ List.cons (Prod.ext hranks hkind) (ih _)

namespace Worker

/-- Behind what the one worker noted, the journal of the other notes the groups that were made since, in their
order. -/
def Noted (w w' : Worker) : Prop :=
  ∃ events, w'.journal = w.journal ++ events ∧
    w'.groups.toList = w.groups.toList ++ events.filterMap Event.created?

theorem Noted.refl (w : Worker) : w.Noted w :=
  ⟨[], (List.append_nil _).symm, (List.append_nil _).symm⟩

theorem Noted.trans {w w' w'' : Worker} (h : w.Noted w') (h' : w'.Noted w'') : w.Noted w'' := by
  obtain ⟨events, hjournal, hgroups⟩ := h
  obtain ⟨events', hjournal', hgroups'⟩ := h'
  refine ⟨events ++ events', ?_, ?_⟩
  · rw [hjournal', hjournal, List.append_assoc]
  · rw [hgroups', hgroups, List.append_assoc, List.filterMap_append]

variable {w w' : Worker} {rank : Rank} {config : Config} {m : Relocation}

theorem noted_note (w : Worker) {e : Event} (he : e.created? = none) : w.Noted (w.note e) :=
  ⟨[e], rfl, by simp [note, he]⟩

theorem noted_insert (w : Worker) (d : Program.Draft) : w.Noted (w.insert d).2 := by
  unfold insert
  cases w.program.insert d with
  | error e => exact .refl w
  | ok r => exact ⟨[.inserted r.1 d.kind.name], rfl, (List.append_nil _).symm⟩

theorem noted_build (w : Worker) (d : Program.Draft)
    (changes : OpId → List (Program → Except ProgramError Program)) : w.Noted (w.build d changes).2 := by
  obtain ⟨p, hbuild⟩ := exists_snd_build w d changes
  rw [hbuild]
  exact noted_insert w d

theorem noted_buildResult (w : Worker) (d : Program.Draft)
    (changes : OpId → List (Program → Except ProgramError Program)) : w.Noted (w.buildResult d changes).2 := by
  rw [snd_buildResult]
  exact noted_build w d changes

theorem noted_standIn (w : Worker) (m : Relocation) : w.Noted (w.standIn m).2 := by
  rw [snd_standIn]
  exact noted_buildResult ..

theorem noted_request (w : Worker) (ranks : List Rank) (kind : GroupKind) : w.Noted (w.request ranks kind).2 := by
  unfold request
  cases w.groups.find? ranks kind with
  | none => exact ⟨[.groupCreated (w.groups.create ranks kind).1], rfl, rfl⟩
  | some g => exact noted_note w rfl

theorem noted_send (w : Worker) (rank peer : Rank) (config : Config) (m : Relocation) :
    w.Noted (w.send rank peer config m).2 := by
  unfold send
  cases w.program.definingChunk m.value with
  | error e => exact .refl w
  | ok chunk =>
    have hins : w.Noted ((w.request [rank, peer] .pointToPoint).2.insertSend m
        (w.request [rank, peer] .pointToPoint).1.id chunk config.stream).2 :=
      (noted_request w [rank, peer] .pointToPoint).trans (noted_build ..)
    simp only
    generalize Worker.insertSend _ _ _ _ _ = r at hins
    obtain ⟨e | op, w'⟩ := r
    · exact hins
    · exact hins.trans (noted_note _ rfl)

theorem noted_receive (w : Worker) (rank peer : Rank) (config : Config) (m : Relocation) :
    w.Noted (w.receive rank peer config m).2 := by
  unfold receive
  by_cases htype : m.type.Dynamic
  · simp only [htype, ↓reduceIte]
    exact .refl w
  · have hins : w.Noted ((w.request [peer, rank] .pointToPoint).2.insertReceive m
        (w.request [peer, rank] .pointToPoint).1.id (w.program.receivingChunk m.value m.dst.mesh) config.stream).2 :=
      (noted_request w [peer, rank] .pointToPoint).trans (noted_buildResult ..)
    simp only [htype, ↓reduceIte]
    generalize Worker.insertReceive _ _ _ _ _ = r at hins
    obtain ⟨e | v, w'⟩ := r
    · exact hins
    · exact hins.trans (noted_note _ rfl)

theorem noted_perform (w : Worker) (rank : Rank) (config : Config) (m : Relocation) (role : Role) :
    w.Noted (w.perform rank config m role).2 := by
  cases role with
  | sender peer =>
    have hsend := noted_send w rank peer config m
    simp only [perform]
    generalize w.send rank peer config m = r at hsend
    obtain ⟨e | _, w'⟩ := r
    · exact hsend
    · exact hsend.trans (noted_standIn _ _)
  | receiver peer => exact noted_receive w rank peer config m
  | stationary => exact .refl w
  | bystander =>
    simp only [perform]
    split
    · exact noted_note w rfl
    · exact noted_standIn w m

/-- A part that succeeds makes no group if that of its role was there. -/
theorem perform_reuses {role : Role} {v : ValueId} (h : w.perform rank config m role = (.ok v, w'))
    (hrole : w.groups.Provides (role.channels rank)) :
    w'.groups = w.groups ∧ ∃ later, w'.journal = w.journal ++ later ∧ Reuses later (role.channels rank) := by
  have hgroups : w'.groups = w.groups := (perform_eq_ok h).1.trans (Groups.requestAll_eq_self_iff.2 hrole)
  have hnoted := noted_perform w rank config m role
  have hanswers := answers_perform w rank config m role
  rw [h] at hnoted hanswers
  obtain ⟨later, hjournal, hmade⟩ := hnoted
  refine ⟨hgroups, later, hjournal, ?_, fun g hg => ?_⟩
  · -- The answers that the part adds to the journal are those to the requests of its role.
    have hlater : later.filterMap Event.answer? = w.groups.answersTo (role.channels rank) := by
      unfold answers at hanswers
      rw [hjournal, List.filterMap_append] at hanswers
      exact List.append_cancel_left hanswers
    rw [hlater, Groups.map_key_answersTo]
  · rw [hgroups, List.self_eq_append_right, List.filterMap_eq_nil_iff] at hmade
    exact absurd (hmade _ hg) (by simp [Event.created?])

/-- A relocation that succeeds leaves the groups of the plan of its rank, and its later requests make none. -/
theorem relocate_reuses {v : ValueId} (h : w.relocate rank config m = (.ok v, w')) :
    w'.groups = (w.plan m.src.mesh m.dst.mesh (some rank) config.eagerReverse).groups ∧
      ∃ later, w'.journal = (w.prepared rank config m).journal ++ later ∧
        Reuses later ((roleOf m.pairs rank).channels rank) := by
  obtain ⟨hclash, -⟩ := relocate_eq_ok h
  have hprepared : (w.prepared rank config m).groups =
      w.groups.requestAll (channels m.pairs (some rank) config.eagerReverse) :=
    groups_plan w m.src.mesh m.dst.mesh (some rank) config.eagerReverse
  have hperform : (w.prepared rank config m).perform rank config m (roleOf m.pairs rank) = (.ok v, w') := by
    unfold relocate at h
    rw [hclash] at h
    exact h
  refine perform_reuses hperform ?_
  rw [hprepared]
  exact (Groups.provides_requestAll _ _).subset (channels_roleOf_subset ..)

/-! ### Plans -/

/-- Each of the ranks plans its channels. -/
def planEach (w : Worker) (src dst : Mesh) (ranks : List Rank) (eagerReverse : Bool) : Worker :=
  ranks.foldl (fun w rank => w.plan src dst (some rank) eagerReverse) w

theorem groups_planEach (w : Worker) (src dst : Mesh) (ranks : List Rank) (eagerReverse : Bool) :
    (w.planEach src dst ranks eagerReverse).groups =
      w.groups.requestAll (ranks.flatMap fun rank => channels (src.pairsWith dst) (some rank) eagerReverse) := by
  induction ranks generalizing w with
  | nil => rfl
  | cons rank ranks ih =>
    show ((w.plan src dst (some rank) eagerReverse).planEach src dst ranks eagerReverse).groups = _
    rw [ih, groups_plan, List.flatMap_cons, Groups.requestAll_append]

theorem groups_plan_plan (w : Worker) (src dst : Mesh) (rank : Option Rank) (eagerReverse : Bool) :
    ((w.plan src dst rank eagerReverse).plan src dst rank eagerReverse).groups =
      (w.plan src dst rank eagerReverse).groups := by
  rw [groups_plan (w.plan src dst rank eagerReverse), groups_plan]
  exact Groups.requestAll_eq_self_iff.2 (Groups.provides_requestAll _ _)

/-- The plan of a rank adds the groups that were missing of those between it and its peers. -/
theorem exists_planned (hw : w.groups.Numbered) (src dst : Mesh) (rank : Rank) (eagerReverse : Bool) : ∃ added,
    (w.plan src dst (some rank) eagerReverse).groups.toList = w.groups.toList ++ added ∧
      (added.map Groups.key).Nodup ∧ (∀ g ∈ added, g.ranks.Nodup) ∧
      ∀ k, k ∈ added.map Groups.key ↔ k ∉ w.groups.toList.map Groups.key ∧
        ∃ a b, (a, b) ∈ src.pairsWith dst ∧ a ≠ b ∧ (rank = a ∨ rank = b) ∧
          (k = ([a, b], .pointToPoint) ∨ eagerReverse = true ∧ k = ([b, a], .pointToPoint)) := by
  obtain ⟨added, hadded, hnodup, hkeys⟩ := hw.exists_added (channels (src.pairsWith dst) (some rank) eagerReverse)
  rw [groups_plan]
  refine ⟨added, hadded, hnodup, fun g hg => ?_, fun k => ?_⟩
  · obtain ⟨-, members, hmembers, hkey⟩ := (hkeys (Groups.key g)).1 (List.mem_map_of_mem hg)
    obtain rfl := (Prod.mk.inj hkey).1
    exact nodup_of_mem_channels hmembers
  · rw [hkeys]
    refine and_congr_right fun _ => ?_
    constructor
    · rintro ⟨members, hmembers, rfl⟩
      obtain ⟨a, b, hmem, hne, hconcerns, hends⟩ := mem_channels_iff.1 hmembers
      refine ⟨a, b, hmem, hne, concerns_some_iff.1 hconcerns, ?_⟩
      rcases hends with rfl | ⟨heager, rfl⟩
      · exact .inl rfl
      · exact .inr ⟨heager, rfl⟩
    · rintro ⟨a, b, hmem, hne, hends, rfl | ⟨heager, rfl⟩⟩
      · exact ⟨[a, b], mem_channels_iff.2 ⟨a, b, hmem, hne, concerns_some_iff.2 hends, .inl rfl⟩, rfl⟩
      · exact ⟨[b, a], mem_channels_iff.2 ⟨a, b, hmem, hne, concerns_some_iff.2 hends, .inr ⟨heager, rfl⟩⟩, rfl⟩

end Worker

/-- Ranks of which one stands in each pair of two ranks plan the channels of a transfer each for itself, in any order
and some of them perhaps again: there are the same groups then as after one plan for all of them.  The plan of one rank
adds the groups that were missing of those between it and its peers, each once and each between two ranks.  Planning
again makes no group.  A relocation that succeeds leaves the groups as the plan of its rank does, and the requests
behind that are all answered with groups that are there. -/
theorem plans_add_up {w : Worker} (hw : w.groups.Reachable) (src dst : Mesh) (eagerReverse : Bool) :
    (∀ ranks : List Rank, (∀ a b, (a, b) ∈ src.pairsWith dst → a ≠ b → a ∈ ranks ∨ b ∈ ranks) →
        ((w.planEach src dst ranks eagerReverse).groups.toList.map Groups.key).Perm
            ((w.plan src dst none eagerReverse).groups.toList.map Groups.key) ∧
          (w.planEach src dst ranks eagerReverse).groups.size = (w.plan src dst none eagerReverse).groups.size) ∧
      (∀ rank, ∃ added, (w.plan src dst (some rank) eagerReverse).groups.toList = w.groups.toList ++ added ∧
        (added.map Groups.key).Nodup ∧ (∀ g ∈ added, g.ranks.Nodup) ∧
        ∀ k, k ∈ added.map Groups.key ↔ k ∉ w.groups.toList.map Groups.key ∧
          ∃ a b, (a, b) ∈ src.pairsWith dst ∧ a ≠ b ∧ (rank = a ∨ rank = b) ∧
            (k = ([a, b], .pointToPoint) ∨ eagerReverse = true ∧ k = ([b, a], .pointToPoint))) ∧
      (∀ rank, ((w.plan src dst rank eagerReverse).plan src dst rank eagerReverse).groups =
        (w.plan src dst rank eagerReverse).groups) ∧
      ∀ rank config m v w', w.relocate rank config m = (.ok v, w') →
        w'.groups = (w.plan m.src.mesh m.dst.mesh (some rank) config.eagerReverse).groups ∧
          ∃ later, w'.journal = (w.prepared rank config m).journal ++ later ∧
            Reuses later ((roleOf m.pairs rank).channels rank) := by
  refine ⟨fun ranks hranks => ?_, fun rank => Worker.exists_planned hw.numbered src dst rank eagerReverse,
    fun rank => Worker.groups_plan_plan w src dst rank eagerReverse, fun rank config m v w' h => ?_⟩
  · have hkeys : ((w.planEach src dst ranks eagerReverse).groups.toList.map Groups.key).Perm
        ((w.plan src dst none eagerReverse).groups.toList.map Groups.key) := by
      rw [Worker.groups_planEach, Worker.groups_plan]
      exact hw.numbered.keys_requestAll_congr fun _ => mem_flatMap_channels_iff hranks
    exact ⟨hkeys, by simpa [Groups.size] using hkeys.length_eq⟩
  · exact Worker.relocate_reuses h

/-- A table with one of the channels of `overlap`. -/
def Groups.linked : Groups := (request {} [2, 0] .pointToPoint).2

theorem Groups.linked_reachable : linked.Reachable := ⟨[.request [2, 0] .pointToPoint], rfl⟩

/-- The receiver of `overlap` plans twice, and in between a bystander. -/
theorem plans_add_up_overlap :
    (Worker.planEach { groups := .linked } overlap.src.mesh overlap.dst.mesh [2, 7, 2] true).groups.size =
        (Worker.plan { groups := .linked } overlap.src.mesh overlap.dst.mesh none true).groups.size ∧
      (Worker.relocate { program := .forked, groups := .linked } 0 {} overlap).2.groups =
        (Worker.plan { program := .forked, groups := .linked } overlap.src.mesh overlap.dst.mesh (some 0)
          true).groups := by
  have hranks : ∀ a b, (a, b) ∈ overlap.src.mesh.pairsWith overlap.dst.mesh → a ≠ b →
      a ∈ [2, 7, 2] ∨ b ∈ [2, 7, 2] := by
    intro a b hmem hne
    have hends : (a, b) ∈ [(0, 2), (1, 1)] := hmem
    grind
  constructor
  · exact ((plans_add_up (w := { groups := .linked }) Groups.linked_reachable overlap.src.mesh overlap.dst.mesh true).1
      [2, 7, 2] hranks).2
  · exact ((plans_add_up (w := { program := .forked, groups := .linked }) Groups.linked_reachable overlap.src.mesh
      overlap.dst.mesh true).2.2.2 0 {} overlap ⟨2⟩ _ rfl).1

end CrossMesh
