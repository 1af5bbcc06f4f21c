import CrossMesh.Proofs.Groups.Reachable
import Mathlib.Data.List.Forall2

/-!
# The history of a table of groups

What a table of groups holds is told by the requests it was sent.  `asked` are the ranks and kinds that the calls on a
table ask for, and `answers` the groups they get, as the journals of the calls note them.  After any calls the table
has one group for each of the asked ranks and kinds, in the order in which they were first asked for, numbered from
one; and a group that was once an answer is the answer to every later request of its ranks and kind (`run_history`).
-/

namespace CrossMesh

/-- The group that an event notes as the answer to a request. -/
def Event.answer? : Event → Option RankGroup
  | .groupCreated g => some g
  | .groupReused g => some g
  | _ => none

/-! ### What a worker asks for and gets -/

namespace Groups

/-- The groups that requests for a channel each are answered with. -/
def answersTo (t : Groups) : List (List Rank) → List RankGroup
  | [] => []
  | ranks :: members => (t.request ranks .pointToPoint).1 :: (t.request ranks .pointToPoint).2.answersTo members

theorem answersTo_append (t : Groups) (members more : List (List Rank)) :
    t.answersTo (members ++ more) = t.answersTo members ++ (t.requestAll members).answersTo more := by
  induction members generalizing t with
  | nil => rfl
  | cons ranks members ih => exact congrArg (List.cons _) (ih _)

end Groups

/-- The member lists of the channels that a relocation asks for: none if a rank stands in two pairs, and that of the
role, behind those of the pairs, only if the relocation succeeds. -/
def Relocation.asks (m : Relocation) (rank : Rank) (config : Config) (succeeds : Bool) : List (List Rank) :=
  if clash? m.pairs = none then
    channels m.pairs (some rank) config.eagerReverse ++ if succeeds then (roleOf m.pairs rank).channels rank else []
  else []

namespace Worker

/-- The answers that the journal of a worker notes. -/
def answers (w : Worker) : List RankGroup := w.journal.filterMap Event.answer?

variable {w : Worker} {rank : Rank} {config : Config} {m : Relocation}

theorem answers_note (w : Worker) (e : Event) : (w.note e).answers = w.answers ++ e.answer?.toList := by
  unfold answers note
  rw [List.filterMap_append]
  cases h : e.answer? <;> simp [h]

theorem answers_request (w : Worker) (ranks : List Rank) (kind : GroupKind) :
    (w.request ranks kind).2.answers = w.answers ++ [(w.groups.request ranks kind).1] := by
  unfold request Groups.request
  cases w.groups.find? ranks kind with
  | none => exact answers_note ..
  | some g => exact answers_note ..

theorem answers_requestChannels (w : Worker) (members : List (List Rank)) :
    (w.requestChannels members).answers = w.answers ++ w.groups.answersTo members := by
  induction members generalizing w with
  | nil => exact (List.append_nil _).symm
  | cons ranks members ih =>
    obtain ⟨journal, hreq⟩ := request_eq w ranks .pointToPoint
    have hgroups : (w.request ranks .pointToPoint).2.groups = (w.groups.request ranks .pointToPoint).2 := by rw [hreq]
    show ((w.request ranks .pointToPoint).2.requestChannels members).answers = _
    rw [ih, answers_request, hgroups, List.append_assoc]
    rfl

theorem answers_prepared (w : Worker) (rank : Rank) (config : Config) (m : Relocation) :
    (w.prepared rank config m).answers =
      w.answers ++ w.groups.answersTo (channels m.pairs (some rank) config.eagerReverse) := by
  unfold prepared
  rw [answers_note]
  exact (List.append_nil _).trans (answers_requestChannels ..)

theorem answers_insert (w : Worker) (d : Program.Draft) : (w.insert d).2.answers = w.answers := by
  unfold insert
  cases w.program.insert d with
  | error e => rfl
  | ok r => exact (answers_note ..).trans (List.append_nil _)

theorem answers_build (w : Worker) (d : Program.Draft)
    (changes : OpId → List (Program → Except ProgramError Program)) : (w.build d changes).2.answers = w.answers := by
  obtain ⟨p, hbuild⟩ := exists_snd_build w d changes
  rw [hbuild]
  exact answers_insert w d

theorem answers_buildResult (w : Worker) (d : Program.Draft)
    (changes : OpId → List (Program → Except ProgramError Program)) :
    (w.buildResult d changes).2.answers = w.answers := by
  rw [snd_buildResult]
  exact answers_build w d changes

theorem answers_standIn (w : Worker) (m : Relocation) : (w.standIn m).2.answers = w.answers := by
  rw [snd_standIn]
  exact answers_buildResult ..

theorem answers_send (rank peer : Rank) (config : Config) {chunk : Int}
    (h : w.program.definingChunk m.value = .ok chunk) :
    (w.send rank peer config m).2.answers = w.answers ++ w.groups.answersTo [[rank, peer]] := by
  have hins : ((w.request [rank, peer] .pointToPoint).2.insertSend m (w.request [rank, peer] .pointToPoint).1.id chunk
      config.stream).2.answers = (w.request [rank, peer] .pointToPoint).2.answers := answers_build ..
  rw [answers_request] at hins
  unfold send
  simp only [h]
  generalize Worker.insertSend _ _ _ _ _ = r at hins
  obtain ⟨e | op, w'⟩ := r
  · exact hins
  · exact (answers_note ..).trans ((List.append_nil _).trans hins)

theorem answers_receive (w : Worker) (rank peer : Rank) (config : Config) (h : ¬m.type.Dynamic) :
    (w.receive rank peer config m).2.answers = w.answers ++ w.groups.answersTo [[peer, rank]] := by
  have hins : ((w.request [peer, rank] .pointToPoint).2.insertReceive m (w.request [peer, rank] .pointToPoint).1.id
      (w.program.receivingChunk m.value m.dst.mesh) config.stream).2.answers =
      (w.request [peer, rank] .pointToPoint).2.answers := answers_buildResult ..
  rw [answers_request] at hins
  unfold receive
  simp only [h, ↓reduceIte]
  generalize Worker.insertReceive _ _ _ _ _ = r at hins
  obtain ⟨e | v, w'⟩ := r
  · exact hins
  · exact (answers_note ..).trans ((List.append_nil _).trans hins)

/-- A part that succeeds is answered with the groups of its role, and one that fails asks for none. -/
theorem answers_perform (w : Worker) (rank : Rank) (config : Config) (m : Relocation) (role : Role) :
    (w.perform rank config m role).2.answers =
      w.answers ++ w.groups.answersTo
        (if (w.perform rank config m role).1.isOk then role.channels rank else []) := by
  cases role with
  | sender peer =>
    cases hc : w.program.definingChunk m.value with
    | error e => simp [perform, send, hc, Except.isOk, Except.toBool, Groups.answersTo]
    | ok chunk =>
      obtain ⟨journal, hok⟩ := perform_sender rank peer config hc
      have hisOk : (w.perform rank config m (.sender peer)).1.isOk = true := by rw [hok]; rfl
      obtain ⟨journal', hsend⟩ := send_eq rank peer config hc
      have hsent := answers_send rank peer config hc
      rw [hsend] at hsent
      rw [if_pos hisOk]
      simp only [perform, hsend]
      exact (answers_standIn ..).trans hsent
  | receiver peer =>
    by_cases ht : m.type.Dynamic
    · simp [perform, receive, ht, Except.isOk, Except.toBool, Groups.answersTo]
    · obtain ⟨journal, hok⟩ := perform_receiver w rank peer config ht
      have hisOk : (w.perform rank config m (.receiver peer)).1.isOk = true := by rw [hok]; rfl
      rw [if_pos hisOk]
      exact answers_receive w rank peer config ht
  | stationary =>
    show w.answers = w.answers ++ w.groups.answersTo (if _ then [] else [])
    rw [ite_self]
    exact (List.append_nil _).symm
  | bystander =>
    have hnone : (w.perform rank config m .bystander).2.answers = w.answers := by
      simp only [perform]
      split
      · exact (answers_note ..).trans (List.append_nil _)
      · exact answers_standIn w m
    show _ = w.answers ++ w.groups.answersTo (if _ then [] else [])
    rw [hnone, ite_self]
    exact (List.append_nil _).symm

/-- A relocation is answered with the groups of the channels it asks for, and makes those that were not there. -/
theorem relocate_asks (w : Worker) (rank : Rank) (config : Config) (m : Relocation) :
    (w.relocate rank config m).2.groups =
        w.groups.requestAll (m.asks rank config (w.relocate rank config m).1.isOk) ∧
      (w.relocate rank config m).2.answers =
        w.answers ++ w.groups.answersTo (m.asks rank config (w.relocate rank config m).1.isOk) := by
  unfold Relocation.asks
  constructor
  · rcases h : w.relocate rank config m with ⟨e | v, w'⟩
    · have hgroups := (relocate_eq_error h).2
      split at hgroups <;> simp_all [Except.isOk, Except.toBool, Groups.requestAll]
    · obtain ⟨hclash, hgroups, -⟩ := relocate_eq_ok h
      rw [if_pos hclash, hgroups]
      rfl
  · cases hclash : clash? m.pairs with
    | some r =>
      rw [if_neg (by simp)]
      simp only [relocate, hclash]
      exact (answers_note ..)
    | none =>
      obtain ⟨journal, hprep⟩ := prepared_eq w rank config m
      have hgroups := congrArg Worker.groups hprep
      rw [if_pos rfl]
      simp only [relocate, hclash]
      rw [answers_perform, answers_prepared, hgroups, Groups.answersTo_append, List.append_assoc]

end Worker

/-! ### Calls on a table -/

namespace Groups

/-- A call on a table of groups, which is the table of the worker that makes it. -/
inductive Call
  | act (a : Action)
  /-- A relocation with the default strategies. -/
  | relocateWith (program : Program) (rank : Rank) (config : Config) (m : Relocation)

/-- The table after a call. -/
def call (t : Groups) : Call → Groups
  | .act a => t.act a
  | .relocateWith program rank config m =>
    (({ program, groups := t } : Worker).relocateWith Strategy.defaults rank config m).2.groups

/-- The ranks and kinds that a call asks for, in its order. -/
def asked (t : Groups) : Call → List (List Rank × GroupKind)
  | .act (.request ranks kind) => [(ranks, kind)]
  | .act (.plan src dst rank eagerReverse) =>
    (channels (src.pairsWith dst) rank eagerReverse).map fun ranks => (ranks, .pointToPoint)
  | .act (.relocate program rank config m) =>
    (m.asks rank config (({ program, groups := t } : Worker).relocate rank config m).1.isOk).map
      fun ranks => (ranks, .pointToPoint)
  | .relocateWith program rank config m =>
    if m.src.Relocatable m.dst then
      (m.asks rank config (({ program, groups := t } : Worker).relocateWith Strategy.defaults rank config m).1.isOk).map
        fun ranks => (ranks, .pointToPoint)
    else []

/-- The groups that a call is answered with, as the journal notes them. -/
def answers (t : Groups) : Call → List RankGroup
  | .act (.request ranks kind) => (({ groups := t } : Worker).request ranks kind).2.answers
  | .act (.plan src dst rank eagerReverse) => (({ groups := t } : Worker).plan src dst rank eagerReverse).answers
  | .act (.relocate program rank config m) => (({ program, groups := t } : Worker).relocate rank config m).2.answers
  | .relocateWith program rank config m =>
    (({ program, groups := t } : Worker).relocateWith Strategy.defaults rank config m).2.answers

/-- The table after several calls. -/
def run (t : Groups) (calls : List Call) : Groups := calls.foldl call t

/-- What several calls ask for, in their order. -/
def askedIn (t : Groups) : List Call → List (List Rank × GroupKind)
  | [] => []
  | c :: calls => t.asked c ++ (t.call c).askedIn calls

/-- The answers to several calls, in their order. -/
def answersIn (t : Groups) : List Call → List RankGroup
  | [] => []
  | c :: calls => t.answers c ++ (t.call c).answersIn calls

theorem answersIn_append (t : Groups) (calls later : List Call) :
    t.answersIn (calls ++ later) = t.answersIn calls ++ (t.run calls).answersIn later := by
  induction calls generalizing t with
  | nil => rfl
  | cons c calls ih =>
    show t.answers c ++ (t.call c).answersIn (calls ++ later) = t.answers c ++ _ ++ _
    rw [ih, List.append_assoc]
    rfl

/-- No call takes a group away. -/
theorem prefix_call (t : Groups) (c : Call) : t.toList <+: (t.call c).toList := by
  cases c with
  | act a =>
    cases a with
    | request ranks kind => exact prefix_request t ranks kind
    | plan src dst rank eagerReverse =>
      show t.toList <+: (Worker.plan { groups := t } src dst rank eagerReverse).groups.toList
      rw [Worker.groups_plan]
      exact prefix_requestAll ..
    | relocate program rank config m =>
      obtain ⟨members, hgroups⟩ := Worker.exists_relocate_groups { program, groups := t } rank config m
      show t.toList <+: (Worker.relocate { program, groups := t } rank config m).2.groups.toList
      rw [hgroups]
      exact prefix_requestAll ..
  | relocateWith program rank config m =>
    obtain ⟨members, hgroups⟩ := Worker.exists_relocateWith_groups { program, groups := t } rank config m
    show t.toList <+: (Worker.relocateWith { program, groups := t } Strategy.defaults rank config m).2.groups.toList
    rw [hgroups]
    exact prefix_requestAll ..

theorem prefix_run (t : Groups) (calls : List Call) : t.toList <+: (t.run calls).toList := by
  induction calls generalizing t with
  | nil => exact List.prefix_refl _
  | cons c calls ih => exact (prefix_call t c).trans (ih _)

/-! ### The invariant -/

/-- The table came from these requests and answered them with these groups. -/
structure Records (t : Groups) (keys : List (List Rank × GroupKind)) (answers : List RankGroup) : Prop where
  numbered : t.Numbered
  keys_eq : t.toList.map key = keys.eraseDups
  answered : List.Forall₂ (fun k g => t.find? k.1 k.2 = some g) keys answers

theorem records_empty : Records {} [] [] := ⟨numbered_empty, rfl, .nil⟩

namespace Records

variable {t : Groups} {keys : List (List Rank × GroupKind)} {answers : List RankGroup}

theorem request (h : t.Records keys answers) (ranks : List Rank) (kind : GroupKind) :
    (t.request ranks kind).2.Records (keys ++ [(ranks, kind)]) (answers ++ [(t.request ranks kind).1]) where
  numbered := h.numbered.request ranks kind
  keys_eq := by
    rw [List.eraseDups_append, ← h.keys_eq]
    unfold Groups.request
    split
    · rename_i g hg
      -- What is asked for again adds nothing.
      obtain ⟨hmem, hranks, hkind⟩ := find?_eq_some hg
      have hkey : (ranks, kind) ∈ keys := by
        rw [← List.mem_eraseDups, ← h.keys_eq]
        exact List.mem_map.2 ⟨g, hmem, Prod.ext hranks hkind⟩
      simp [List.removeAll, hkey]
    · rename_i hnone
      have hkey : (ranks, kind) ∉ keys := by
        rw [← List.mem_eraseDups, ← h.keys_eq]
        exact find?_eq_none hnone
      simp [List.removeAll, hkey, create, key, List.eraseDups_cons]
  answered := by
    refine List.rel_append ?_ (.cons (find?_request t ranks kind) .nil)
    exact h.answered.imp fun k g hg => find?_of_prefix (prefix_request t ranks kind) hg

theorem requestAll (h : t.Records keys answers) (members : List (List Rank)) :
    (t.requestAll members).Records (keys ++ members.map fun ranks => (ranks, .pointToPoint))
      (answers ++ t.answersTo members) := by
  induction members generalizing t keys answers with
  | nil =>
    rw [List.map_nil, List.append_nil]
    exact (List.append_nil answers).symm ▸ h
  | cons ranks members ih =>
    have hrest := ih (h.request ranks .pointToPoint)
    rw [List.append_assoc, List.append_assoc] at hrest
    exact hrest

/-- A call adds what it asks for and what it gets. -/
theorem call (h : t.Records keys answers) (c : Call) :
    (t.call c).Records (keys ++ t.asked c) (answers ++ t.answers c) := by
  -- A relocation asks for channels, whoever runs it.
  have relocated : ∀ (w : Worker) (rank : Rank) (config : Config) (m : Relocation), w.groups = t → w.answers = [] →
      (w.relocate rank config m).2.groups.Records
        (keys ++ (m.asks rank config (w.relocate rank config m).1.isOk).map fun ranks => (ranks, .pointToPoint))
        (answers ++ (w.relocate rank config m).2.answers) := by
    rintro w rank config m rfl hempty
    obtain ⟨hgroups, hanswers⟩ := w.relocate_asks rank config m
    rw [hanswers, hempty, List.nil_append]
    rw [hgroups]
    exact h.requestAll _
  cases c with
  | act a =>
    cases a with
    | request ranks kind =>
      have hanswers := Worker.answers_request { groups := t } ranks kind
      show (t.request ranks kind).2.Records (keys ++ [(ranks, kind)]) (answers ++ Worker.answers _)
      rw [hanswers]
      exact h.request ranks kind
    | plan src dst rank eagerReverse =>
      have hanswers := Worker.answers_requestChannels { groups := t } (channels (src.pairsWith dst) rank eagerReverse)
      obtain ⟨journal, hplan⟩ :=
        Worker.requestChannels_eq { groups := t } (channels (src.pairsWith dst) rank eagerReverse)
      show (Worker.requestChannels { groups := t } _).groups.Records _
        (answers ++ Worker.answers (Worker.requestChannels { groups := t } _))
      rw [hanswers, hplan]
      exact h.requestAll _
    | relocate program rank config m => exact relocated { program, groups := t } rank config m rfl rfl
  | relocateWith program rank config m =>
    by_cases hm : m.src.Relocatable m.dst
    · simp only [Groups.call, asked, Groups.answers, if_pos hm, Worker.relocateWith_defaults hm]
      exact relocated (({ program, groups := t } : Worker).note (.strategyChosen m.value "same_status")) rank config m
        rfl rfl
    · simp only [Groups.call, asked, Groups.answers, if_neg hm, Worker.relocateWith_unsuitable hm]
      rw [List.append_nil]
      exact (List.append_nil answers).symm ▸ h

theorem run (h : t.Records keys answers) (calls : List Call) :
    (t.run calls).Records (keys ++ t.askedIn calls) (answers ++ t.answersIn calls) := by
  induction calls generalizing t keys answers with
  | nil =>
    show t.Records (keys ++ []) (answers ++ [])
    rw [List.append_nil, List.append_nil]
    exact h
  | cons c calls ih =>
    have hrest := ih (h.call c)
    rw [List.append_assoc, List.append_assoc] at hrest
    exact hrest

/-- Each request was answered with the group of its ranks and kind. -/
theorem map_key_answers (h : t.Records keys answers) : answers.map key = keys := by
  have heq : List.Forall₂ (fun k g => k = key g) keys answers := h.answered.imp fun k g hg => by
    obtain ⟨-, hranks, hkind⟩ := find?_eq_some hg
    exact (Prod.ext hranks hkind).symm
  rw [← List.forall₂_map_right_iff, List.forall₂_eq_eq_eq] at heq
  exact heq.symm

/-- An answer is what is found for its ranks and kind. -/
theorem find?_of_mem_answers (h : t.Records keys answers) {g : RankGroup} (hg : g ∈ answers) :
    t.find? g.ranks g.kind = some g := by
  obtain ⟨i, hi, rfl⟩ := List.mem_iff_getElem.1 hg
  have hfind := h.answered.get (h.answered.length_eq ▸ hi) hi
  obtain ⟨-, hranks, hkind⟩ := find?_eq_some hfind
  simp only [List.get_eq_getElem] at hfind hranks hkind
  rw [← hranks, ← hkind] at hfind
  exact hfind

/-- The groups are those of the ranks and kinds that were asked for. -/
theorem mem_keys_iff (h : t.Records keys answers) {k : List Rank × GroupKind} :
    (∃ g, t.find? k.1 k.2 = some g) ↔ k ∈ keys := by
  rw [← List.mem_eraseDups, ← h.keys_eq]
  constructor
  · rintro ⟨g, hg⟩
    obtain ⟨hmem, hranks, hkind⟩ := find?_eq_some hg
    exact List.mem_map.2 ⟨g, hmem, Prod.ext hranks hkind⟩
  · intro hk
    cases hfind : t.find? k.1 k.2 with
    | none => exact absurd hk (find?_eq_none hfind)
    | some g => exact ⟨g, rfl⟩

/-- The number of a group is the place at which its ranks and kind were first asked for. -/
theorem id_eq (h : t.Records keys answers) {g : RankGroup} (hg : g ∈ t.toList) :
    g.id = keys.eraseDups.idxOf (key g) + 1 := by
  obtain ⟨i, hi, rfl⟩ := List.mem_iff_getElem.1 hg
  have hid : (t.toList.map RankGroup.id)[i]? = some (i + 1) := by
    rw [h.numbered.ids, List.getElem?_range' hi]
    simp [Nat.add_comm]
  have hplace : (t.toList.map key).idxOf (key t.toList[i]) = i := by
    have hget := List.get_idxOf h.numbered.nodup_keys ⟨i, by simpa using hi⟩
    simpa using hget
  rw [← h.keys_eq, hplace]
  simpa [hi] using hid

end Records

/-- After any calls on a table that starts empty, whether they succeed or fail, each request was answered with a group
of its ranks and kind.  The table has one group for each of the ranks and kinds that were asked for, in the order in
which they were first asked for, and their numbers are `1`, `2`, …, so that each is the place of its ranks and kind in
that order.  A group that was once an answer is found for its ranks and kind, and answers to them, after any later
calls; and two answers with one number are for the same ranks and kind. -/
theorem run_history (calls : List Call) :
    (answersIn {} calls).map key = askedIn {} calls ∧
      (run {} calls).toList.map key = (askedIn {} calls).eraseDups ∧
      (run {} calls).toList.map RankGroup.id = List.range' 1 (run {} calls).size ∧
      (run {} calls).nextId = (run {} calls).size + 1 ∧
      (∀ g ∈ answersIn {} calls, g.id = (askedIn {} calls).eraseDups.idxOf (key g) + 1) ∧
      (∀ k, (∃ g, (run {} calls).find? k.1 k.2 = some g) ↔ k ∈ askedIn {} calls) ∧
      (∀ g ∈ answersIn {} calls, ∀ later, (run {} (calls ++ later)).find? g.ranks g.kind = some g ∧
        (run {} (calls ++ later)).request g.ranks g.kind = (g, run {} (calls ++ later))) ∧
      ∀ g ∈ answersIn {} calls, ∀ g' ∈ answersIn {} calls, g.id = g'.id → key g = key g' := by
  have hrun : ∀ calls, (run {} calls).Records (askedIn {} calls) (answersIn {} calls) :=
    fun calls => records_empty.run calls
  have h := hrun calls
  have hmem : ∀ g ∈ answersIn {} calls, g ∈ (run {} calls).toList :=
    fun g hg => (find?_eq_some (h.find?_of_mem_answers hg)).1
  refine ⟨h.map_key_answers, h.keys_eq, h.numbered.ids, h.numbered.nextId, fun g hg => h.id_eq (hmem g hg),
    fun k => h.mem_keys_iff, fun g hg later => ?_, fun g hg g' hg' hid => ?_⟩
  · have hanswer : g ∈ answersIn {} (calls ++ later) := by
      rw [answersIn_append]
      exact List.mem_append_left _ hg
    have hfind := (hrun (calls ++ later)).find?_of_mem_answers hanswer
    exact ⟨hfind, by simp only [request, hfind]⟩
  · rw [List.inj_on_of_nodup_map h.numbered.nodup_ids (hmem g hg) (hmem g' hg') hid]

end Groups

end CrossMesh
