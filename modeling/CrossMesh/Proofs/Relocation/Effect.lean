import CrossMesh.Proofs.Groups.Numbered
import CrossMesh.Proofs.Program.Insertions
import CrossMesh.Strategy

/-!
# What a relocation does to a worker

By its role a worker inserts a send and a placeholder, a receive, a placeholder or nothing, and requests the channel
of its role after those of its pairs.  The worker inserts an operation first and then places it, types it and puts it
on a stream; `build_of_known` says that this has the effect of one insertion, of the finished draft.
`Relocation.Part` says which drafts these are and which value then stands for the destination, and
`Relocation.Refusal` what keeps a role from being performed; `relocate_eq_ok` and `relocate_eq_error` say that a
relocation does this and nothing else, `exists_relocate` when it succeeds and `refusal_of_relocate` when it fails.
-/

namespace CrossMesh

/-- The member lists of the channels a role uses. -/
def Role.channels (rank : Rank) : Role → List (List Rank)
  | sender peer => [[rank, peer]]
  | receiver peer => [[peer, rank]]
  | stationary => []
  | bystander => []

namespace Relocation

/-- The finished send of the value, to the second member of a group. -/
def sendDraft (m : Relocation) (group : Nat) (chunk : Int) (stream : StreamKind) : Program.Draft where
  kind := .send group 1 false
  operands := [m.value]
  types := []
  placement := some { mesh := m.src.mesh, operands := [m.src], results := [], chunk }
  stream := some stream

/-- The finished receive of the value, from the first member of a group. -/
def receiveDraft (m : Relocation) (group : Nat) (chunk : Int) (stream : StreamKind) : Program.Draft where
  kind := .receive group 0 m.type.elem false
  operands := []
  types := [m.type]
  placement := some { mesh := m.dst.mesh, operands := [], results := [m.dst], chunk }
  stream := some stream

/-- The finished placeholder of the value at its destination. -/
def placeholderDraft (m : Relocation) : Program.Draft where
  kind := .placeholder m.dst
  operands := [m.value]
  types := [m.type]
  placement := some { mesh := m.dst.mesh, operands := [m.src], results := [m.dst], chunk := unscheduled }

end Relocation

/-- The drafts that a role inserts into the program `p`, and the value that stands for the destination afterwards,
where `t` is the table of groups after the insertion. -/
inductive Relocation.Part (m : Relocation) (p : Program) (t : Groups) (rank : Rank) (config : Config) :
    Role → List Program.Draft → ValueId → Prop
  | sender {peer : Rank} {g : RankGroup} {chunk : Int} (hg : t.find? [rank, peer] .pointToPoint = some g)
      (hchunk : p.definingChunk m.value = .ok chunk) :
      Part m p t rank config (.sender peer) [m.sendDraft g.id chunk config.stream, m.placeholderDraft] p.nextValue
  | receiver {peer : Rank} {g : RankGroup} (hg : t.find? [peer, rank] .pointToPoint = some g)
      (htype : ¬m.type.Dynamic) :
      Part m p t rank config (.receiver peer)
        [m.receiveDraft g.id (p.receivingChunk m.value m.dst.mesh) config.stream] p.nextValue
  | stationary : Part m p t rank config .stationary [] m.value
  | bystander (hsrc : rank ∉ m.src.mesh) (hdst : rank ∉ m.dst.mesh) (hvalue : m.value.index < p.values.size) :
      Part m p t rank config .bystander [m.placeholderDraft] p.nextValue

/-- Why a role cannot be performed on the program `p`. -/
inductive Relocation.Refusal (m : Relocation) (p : Program) (rank : Rank) : Role → RelocationError → Prop
  | sender {peer : Rank} {e : ProgramError} (hchunk : p.definingChunk m.value = .error e) :
      Refusal m p rank (.sender peer) (.program e)
  | receiver {peer : Rank} (htype : m.type.Dynamic) :
      Refusal m p rank (.receiver peer) (.dynamicType m.value m.type)
  | leftOver (hrank : rank ∈ m.src.mesh ∨ rank ∈ m.dst.mesh) : Refusal m p rank .bystander (.unpaired rank)
  | bystander (hsrc : rank ∉ m.src.mesh) (hdst : rank ∉ m.dst.mesh) (hvalue : ¬m.value.index < p.values.size) :
      Refusal m p rank .bystander (.program (.unknownValue m.value))

namespace Program

theorem definingChunk_eq_ok {p : Program} {v : ValueId} {chunk : Int} (h : p.definingChunk v = .ok chunk) :
    v.index < p.values.size := by
  unfold definingChunk definingOp Program.value at h
  cases hv : p.value? v with
  | none => simp [hv, Except.map] at h
  | some x => exact lt_of_value?_eq_some hv

theorem Available.exists_definingChunk {p : Program} {v : ValueId} (h : p.Available v) :
    ∃ chunk, p.definingChunk v = .ok chunk := by
  obtain ⟨x, hx, horigin⟩ := h
  unfold definingChunk definingOp Program.value
  rw [hx]
  cases ho : x.origin with
  | input placement => exact ⟨_, by simp [Except.map, ho]; rfl⟩
  | result op i =>
    obtain ⟨o, hop⟩ := horigin op i ho
    exact ⟨o.chunk, by simp [Except.map, ho, Program.op, hop]⟩

end Program

namespace Relocation

variable {m : Relocation}

theorem known_sendDraft {p : Program} (h : m.value.index < p.values.size) (group : Nat) (chunk : Int)
    (stream : StreamKind) : p.Known (m.sendDraft group chunk stream) := by
  intro u hu
  obtain rfl := List.mem_singleton.1 hu
  exact h

theorem known_receiveDraft (p : Program) (group : Nat) (chunk : Int) (stream : StreamKind) :
    p.Known (m.receiveDraft group chunk stream) :=
  fun _ hu => absurd hu List.not_mem_nil

theorem known_placeholderDraft {p : Program} (h : m.value.index < p.values.size) : p.Known m.placeholderDraft := by
  intro u hu
  obtain rfl := List.mem_singleton.1 hu
  exact h

variable {p : Program} {t : Groups} {rank : Rank} {config : Config} {role : Role} {ds : List Program.Draft}
  {v : ValueId}

/-- A receiver refuses nothing but a type of unknown size. -/
theorem not_refusal_receiver {peer : Rank} (htype : ¬m.type.Dynamic) (e : RelocationError) :
    ¬m.Refusal p rank (.receiver peer) e := by
  rintro (_ | hdynamic)
  exact htype hdynamic

/-- The drafts of a role use only values of the program. -/
theorem Part.known (h : m.Part p t rank config role ds v) : ∀ d ∈ ds, p.Known d := by
  intro d hd
  cases h with
  | sender hg hchunk =>
    have hlt := Program.definingChunk_eq_ok hchunk
    rcases List.mem_cons.1 hd with rfl | hd
    · exact known_sendDraft hlt _ _ _
    · obtain rfl := List.mem_singleton.1 hd
      exact known_placeholderDraft hlt
  | receiver hg htype =>
    obtain rfl := List.mem_singleton.1 hd
    exact known_receiveDraft _ _ _ _
  | stationary => exact absurd hd List.not_mem_nil
  | bystander hsrc hdst hvalue =>
    obtain rfl := List.mem_singleton.1 hd
    exact known_placeholderDraft hvalue

theorem Part.accepts (h : m.Part p t rank config role ds v) : p.Accepts ds :=
  Program.accepts_of_known h.known

/-- A part stays what it is while the table of groups grows. -/
theorem Part.mono {t' : Groups} (ht : t.toList <+: t'.toList) (h : m.Part p t rank config role ds v) :
    m.Part p t' rank config role ds v := by
  cases h with
  | sender hg hchunk => exact .sender (Groups.find?_of_prefix ht hg) hchunk
  | receiver hg htype => exact .receiver (Groups.find?_of_prefix ht hg) htype
  | stationary => exact .stationary
  | bystander hsrc hdst hvalue => exact .bystander hsrc hdst hvalue

end Relocation

namespace Worker

variable {w w' : Worker} {rank : Rank} {config : Config} {m : Relocation}

/-! ### Insertions and requests -/

theorem insert_of_known {d : Program.Draft} (h : w.program.Known d) : ∃ journal,
    w.insert d = (.ok w.program.nextOp, { program := w.program.place d, groups := w.groups, journal }) := by
  unfold insert
  rw [Program.insert_of_known h]
  exact ⟨_, rfl⟩

/-- An operation that is inserted and changed until it is what the draft `e` makes has the effect of inserting `e`. -/
theorem build_of_known {d e : Program.Draft} {changes : OpId → List (Program → Except ProgramError Program)}
    (h : w.program.Known d)
    (hchanges : (w.program.place d).changeAll (changes w.program.nextOp) = (.ok (), w.program.place e)) : ∃ journal,
    w.build d changes = (.ok w.program.nextOp, { program := w.program.place e, groups := w.groups, journal }) := by
  obtain ⟨journal, hins⟩ := insert_of_known h
  unfold build
  simp only [hins, hchanges]
  exact ⟨journal, rfl⟩

theorem buildResult_of_known {d e : Program.Draft} {changes : OpId → List (Program → Except ProgramError Program)}
    {type : TensorType} (h : w.program.Known d)
    (hchanges : (w.program.place d).changeAll (changes w.program.nextOp) = (.ok (), w.program.place e))
    (htypes : e.types = [type]) : ∃ journal,
    w.buildResult d changes =
      (.ok w.program.nextValue, { program := w.program.place e, groups := w.groups, journal }) := by
  obtain ⟨journal, hbuild⟩ := build_of_known h hchanges
  unfold buildResult
  simp only [hbuild, Program.firstResult_place htypes]
  exact ⟨journal, rfl⟩

/-- Besides the program, building an operation changes what inserting it does. -/
theorem exists_snd_build (w : Worker) (d : Program.Draft)
    (changes : OpId → List (Program → Except ProgramError Program)) :
    ∃ p, (w.build d changes).2 = { (w.insert d).2 with program := p } := by
  unfold build
  rcases w.insert d with ⟨e | op, w'⟩
  · exact ⟨w'.program, rfl⟩
  · simp only
    rcases w'.program.changeAll (changes op) with ⟨e | -, p⟩ <;> exact ⟨p, rfl⟩

theorem snd_buildResult (w : Worker) (d : Program.Draft)
    (changes : OpId → List (Program → Except ProgramError Program)) :
    (w.buildResult d changes).2 = (w.build d changes).2 := by
  unfold buildResult
  rcases w.build d changes with ⟨e | op, w'⟩ <;> rfl

theorem snd_standIn (w : Worker) (m : Relocation) : (w.standIn m).2 = (w.insertPlaceholder m).2 := by
  unfold standIn
  rcases w.insertPlaceholder m with ⟨e | v, w'⟩ <;> rfl

theorem request_eq (w : Worker) (ranks : List Rank) (kind : GroupKind) : ∃ journal,
    w.request ranks kind =
      ((w.groups.request ranks kind).1,
        { program := w.program, groups := (w.groups.request ranks kind).2, journal }) := by
  unfold request Groups.request
  cases w.groups.find? ranks kind with
  | none => exact ⟨_, rfl⟩
  | some g => exact ⟨_, rfl⟩

theorem requestChannels_eq (w : Worker) (members : List (List Rank)) : ∃ journal,
    w.requestChannels members = { program := w.program, groups := w.groups.requestAll members, journal } := by
  induction members generalizing w with
  | nil => exact ⟨_, rfl⟩
  | cons ranks members ih =>
    obtain ⟨journal, hreq⟩ := request_eq w ranks .pointToPoint
    obtain ⟨journal', hrest⟩ := ih (w.request ranks .pointToPoint).2
    refine ⟨journal', ?_⟩
    show (w.request ranks .pointToPoint).2.requestChannels members = _
    rw [hrest, hreq]
    rfl

theorem groups_plan (w : Worker) (src dst : Mesh) (rank : Option Rank) (eagerReverse : Bool) :
    (w.plan src dst rank eagerReverse).groups =
      w.groups.requestAll (channels (src.pairsWith dst) rank eagerReverse) := by
  obtain ⟨journal, hplan⟩ := requestChannels_eq w (channels (src.pairsWith dst) rank eagerReverse)
  unfold plan
  rw [hplan]

theorem prepared_eq (w : Worker) (rank : Rank) (config : Config) (m : Relocation) : ∃ journal,
    w.prepared rank config m =
      { program := w.program, groups := w.groups.requestAll (channels m.pairs (some rank) config.eagerReverse),
        journal } := by
  obtain ⟨journal, hplan⟩ := requestChannels_eq w (channels m.pairs (some rank) config.eagerReverse)
  refine ⟨journal ++ [.roleResolved rank (roleOf m.pairs rank) m.value], ?_⟩
  show (w.requestChannels (channels m.pairs (some rank) config.eagerReverse)).note _ = _
  rw [hplan]
  rfl

/-! ### The part of each role

What is inserted and then completed call by call is the finished operation. -/

theorem insertSend_of_known (h : m.value.index < w.program.values.size) (group : Nat) (chunk : Int)
    (stream : StreamKind) : ∃ journal, w.insertSend m group chunk stream =
      (.ok w.program.nextOp,
        { program := w.program.place (m.sendDraft group chunk stream), groups := w.groups, journal }) := by
  refine build_of_known (Relocation.known_sendDraft h group chunk stream) ?_
  rw [Program.changeAll_cons (Program.setPlacement_place ..), Program.changeAll_cons (Program.setStream_place ..)]
  rfl

theorem insertReceive_eq (w : Worker) (m : Relocation) (group : Nat) (chunk : Int) (stream : StreamKind) :
    ∃ journal, w.insertReceive m group chunk stream =
      (.ok w.program.nextValue,
        { program := w.program.place (m.receiveDraft group chunk stream), groups := w.groups, journal }) := by
  refine buildResult_of_known (Relocation.known_receiveDraft (m := m) w.program group chunk stream) ?_ rfl
  rw [Program.changeAll_cons (Program.setPlacement_place ..),
    Program.changeAll_cons (Program.setResultType_place rfl _), Program.changeAll_cons (Program.setStream_place ..)]
  rfl

theorem standIn_of_known (h : m.value.index < w.program.values.size) : ∃ journal,
    w.standIn m = (.ok w.program.nextValue,
      { program := w.program.place m.placeholderDraft, groups := w.groups, journal }) := by
  obtain ⟨journal, hins⟩ : ∃ journal, w.insertPlaceholder m = (.ok w.program.nextValue,
      { program := w.program.place m.placeholderDraft, groups := w.groups, journal }) := by
    refine buildResult_of_known (Relocation.known_placeholderDraft h) ?_ rfl
    rw [Program.changeAll_cons (Program.setPlacement_place ..)]
    rfl
  unfold standIn
  rw [hins]
  exact ⟨journal, rfl⟩

theorem standIn_of_unknown (h : ¬m.value.index < w.program.values.size) :
    w.standIn m = (.error (.program (.unknownValue m.value)), w) := by
  simp [standIn, insertPlaceholder, buildResult, build, insert, Program.insert, Nat.not_lt.1 h]

theorem send_eq (rank peer : Rank) (config : Config) {chunk : Int}
    (h : w.program.definingChunk m.value = .ok chunk) : ∃ journal,
    w.send rank peer config m = (.ok (),
      { program := w.program.place
          (m.sendDraft (w.groups.request [rank, peer] .pointToPoint).1.id chunk config.stream)
        groups := (w.groups.request [rank, peer] .pointToPoint).2, journal }) := by
  obtain ⟨journal, hreq⟩ := request_eq w [rank, peer] .pointToPoint
  obtain ⟨journal', hins⟩ := insertSend_of_known (w := (w.request [rank, peer] .pointToPoint).2)
    (by rw [hreq]; exact Program.definingChunk_eq_ok h)
    (w.groups.request [rank, peer] .pointToPoint).1.id chunk config.stream
  unfold send
  rw [hreq] at hins
  simp only [h, hreq, hins]
  exact ⟨_, rfl⟩

theorem perform_sender (rank peer : Rank) (config : Config) {chunk : Int}
    (h : w.program.definingChunk m.value = .ok chunk) : ∃ journal,
    w.perform rank config m (.sender peer) = (.ok w.program.nextValue,
      { program := w.program.placeAll
          [m.sendDraft (w.groups.request [rank, peer] .pointToPoint).1.id chunk config.stream, m.placeholderDraft]
        groups := (w.groups.request [rank, peer] .pointToPoint).2, journal }) := by
  obtain ⟨journal, hsend⟩ := send_eq rank peer config h
  obtain ⟨journal', hone⟩ := standIn_of_known (w := (w.send rank peer config m).2) (m := m)
    (by
      rw [hsend, Program.size_values_place]
      exact Nat.lt_add_right _ (Program.definingChunk_eq_ok h))
  refine ⟨journal', ?_⟩
  rw [hsend] at hone
  simp only [perform, hsend, hone]
  rw [Program.nextValue_place rfl]
  rfl

theorem perform_receiver (w : Worker) (rank peer : Rank) (config : Config) (h : ¬m.type.Dynamic) : ∃ journal,
    w.perform rank config m (.receiver peer) = (.ok w.program.nextValue,
      { program := w.program.placeAll [m.receiveDraft (w.groups.request [peer, rank] .pointToPoint).1.id
          (w.program.receivingChunk m.value m.dst.mesh) config.stream]
        groups := (w.groups.request [peer, rank] .pointToPoint).2, journal }) := by
  obtain ⟨journal, hreq⟩ := request_eq w [peer, rank] .pointToPoint
  obtain ⟨journal', hone⟩ := insertReceive_eq (w.request [peer, rank] .pointToPoint).2 m
    (w.groups.request [peer, rank] .pointToPoint).1.id (w.program.receivingChunk m.value m.dst.mesh) config.stream
  rw [hreq] at hone
  simp only [perform, receive, h, ↓reduceIte, hreq, hone]
  exact ⟨_, rfl⟩

theorem perform_bystander (config : Config) (hsrc : rank ∉ m.src.mesh) (hdst : rank ∉ m.dst.mesh)
    (hvalue : m.value.index < w.program.values.size) : ∃ journal,
    w.perform rank config m .bystander = (.ok w.program.nextValue,
      { program := w.program.placeAll [m.placeholderDraft], groups := w.groups, journal }) := by
  obtain ⟨journal, hone⟩ := standIn_of_known hvalue
  simp only [perform, hsrc, hdst, or_self, ↓reduceIte, hone]
  exact ⟨journal, rfl⟩

/-- A part that fails has a reason to, and leaves the program and the groups as they were. -/
theorem perform_eq_error {role : Role} {e : RelocationError} (h : w.perform rank config m role = (.error e, w')) :
    w'.program = w.program ∧ w'.groups = w.groups ∧ m.Refusal w.program rank role e := by
  cases role with
  | sender peer =>
    cases hc : w.program.definingChunk m.value with
    | error e' =>
      simp only [perform, send, hc] at h
      obtain ⟨he, rfl⟩ := Prod.mk.inj h
      obtain rfl := Except.error.inj he
      exact ⟨rfl, rfl, .sender hc⟩
    | ok chunk =>
      obtain ⟨journal, hok⟩ := perform_sender rank peer config hc
      rw [hok] at h
      exact absurd h (by simp)
  | receiver peer =>
    by_cases ht : m.type.Dynamic
    · simp only [perform, receive, ht, ↓reduceIte] at h
      obtain ⟨he, rfl⟩ := Prod.mk.inj h
      obtain rfl := Except.error.inj he
      exact ⟨rfl, rfl, .receiver ht⟩
    · obtain ⟨journal, hok⟩ := perform_receiver w rank peer config ht
      rw [hok] at h
      exact absurd h (by simp)
  | stationary => exact absurd h (by simp [perform])
  | bystander =>
    by_cases hin : rank ∈ m.src.mesh ∨ rank ∈ m.dst.mesh
    · simp only [perform, hin, ↓reduceIte] at h
      obtain ⟨he, rfl⟩ := Prod.mk.inj h
      obtain rfl := Except.error.inj he
      exact ⟨rfl, rfl, .leftOver hin⟩
    · obtain ⟨hsrc, hdst⟩ := not_or.1 hin
      by_cases hvalue : m.value.index < w.program.values.size
      · obtain ⟨journal, hok⟩ := perform_bystander (w := w) config hsrc hdst hvalue
        rw [hok] at h
        exact absurd h (by simp)
      · simp only [perform, hin, ↓reduceIte, standIn_of_unknown hvalue] at h
        obtain ⟨he, rfl⟩ := Prod.mk.inj h
        obtain rfl := Except.error.inj he
        exact ⟨rfl, rfl, .bystander hsrc hdst hvalue⟩

/-- A part that succeeds inserts the drafts of the role and requests its channel. -/
theorem perform_eq_ok {role : Role} {v : ValueId} (h : w.perform rank config m role = (.ok v, w')) :
    w'.groups = w.groups.requestAll (role.channels rank) ∧
      ∃ ds, m.Part w.program w'.groups rank config role ds v ∧ w'.program = w.program.placeAll ds := by
  cases role with
  | sender peer =>
    cases hc : w.program.definingChunk m.value with
    | error e' => simp [perform, send, hc] at h
    | ok chunk =>
      obtain ⟨journal, hok⟩ := perform_sender rank peer config hc
      obtain ⟨hv, rfl⟩ := Prod.mk.inj (hok.symm.trans h)
      obtain rfl := Except.ok.inj hv
      exact ⟨rfl, _, .sender (Groups.find?_request ..) hc, rfl⟩
  | receiver peer =>
    by_cases ht : m.type.Dynamic
    · simp [perform, receive, ht] at h
    · obtain ⟨journal, hok⟩ := perform_receiver w rank peer config ht
      obtain ⟨hv, rfl⟩ := Prod.mk.inj (hok.symm.trans h)
      obtain rfl := Except.ok.inj hv
      exact ⟨rfl, _, .receiver (Groups.find?_request ..) ht, rfl⟩
  | stationary =>
    obtain ⟨hv, rfl⟩ := Prod.mk.inj h
    obtain rfl := Except.ok.inj hv
    exact ⟨rfl, [], .stationary, rfl⟩
  | bystander =>
    by_cases hin : rank ∈ m.src.mesh ∨ rank ∈ m.dst.mesh
    · simp [perform, hin] at h
    · obtain ⟨hsrc, hdst⟩ := not_or.1 hin
      have hvalue : m.value.index < w.program.values.size := by
        by_contra hvalue
        simp [perform, hin, standIn_of_unknown hvalue] at h
      obtain ⟨journal, hok⟩ := perform_bystander (w := w) config hsrc hdst hvalue
      obtain ⟨hv, rfl⟩ := Prod.mk.inj (hok.symm.trans h)
      obtain rfl := Except.ok.inj hv
      exact ⟨rfl, _, .bystander hsrc hdst hvalue, rfl⟩

/-! ### Relocations -/

/-- A relocation that fails leaves the program as it was; unless a rank stands in two pairs, the channels of the rank
were requested before. -/
theorem relocate_eq_error {e : RelocationError} (h : w.relocate rank config m = (.error e, w')) :
    w'.program = w.program ∧
      w'.groups = if clash? m.pairs = none then
        w.groups.requestAll (channels m.pairs (some rank) config.eagerReverse) else w.groups := by
  obtain ⟨journal, hprep⟩ := prepared_eq w rank config m
  unfold relocate at h
  split at h
  · rename_i hclash
    obtain ⟨-, rfl⟩ := Prod.mk.inj h
    exact ⟨rfl, by rw [hclash]; rfl⟩
  · rename_i hclash
    obtain ⟨hprogram, hgroups, -⟩ := perform_eq_error h
    rw [hprep] at hprogram hgroups
    exact ⟨hprogram, by rw [if_pos hclash, hgroups]⟩

/-- A relocation that fails does so because a rank stands in two pairs or because the role cannot be performed. -/
theorem refusal_of_relocate {e : RelocationError} (h : w.relocate rank config m = (.error e, w')) :
    (∃ r, clash? m.pairs = some r ∧ e = .clash r) ∨
      clash? m.pairs = none ∧ m.Refusal w.program rank (roleOf m.pairs rank) e := by
  obtain ⟨journal, hprep⟩ := prepared_eq w rank config m
  unfold relocate at h
  split at h
  · rename_i r hclash
    obtain ⟨he, -⟩ := Prod.mk.inj h
    exact .inl ⟨r, hclash, (Except.error.inj he).symm⟩
  · rename_i hclash
    obtain ⟨-, -, hrefusal⟩ := perform_eq_error h
    rw [hprep] at hrefusal
    exact .inr ⟨hclash, hrefusal⟩

/-- A relocation that succeeds inserts the drafts of the rank's role, after the channels of the rank were requested. -/
theorem relocate_eq_ok {v : ValueId} (h : w.relocate rank config m = (.ok v, w')) :
    clash? m.pairs = none ∧
      w'.groups = w.groups.requestAll
        (channels m.pairs (some rank) config.eagerReverse ++ (roleOf m.pairs rank).channels rank) ∧
      ∃ ds, m.Part w.program w'.groups rank config (roleOf m.pairs rank) ds v ∧ w'.program = w.program.placeAll ds := by
  obtain ⟨journal, hprep⟩ := prepared_eq w rank config m
  unfold relocate at h
  split at h
  · exact absurd h (by simp)
  · rename_i hclash
    obtain ⟨hgroups, ds, hpart, hprogram⟩ := perform_eq_ok h
    rw [hprep] at hgroups hpart hprogram
    exact ⟨hclash, by rw [hgroups, Groups.requestAll_append], ds, hpart, hprogram⟩

/-- A relocation without a clash succeeds if there is no reason to refuse the role. -/
theorem exists_relocate_of_not_refusal (w : Worker) (rank : Rank) (config : Config) (hclash : clash? m.pairs = none)
    (hrole : ∀ e, ¬m.Refusal w.program rank (roleOf m.pairs rank) e) :
    ∃ v w', w.relocate rank config m = (.ok v, w') := by
  rcases h : w.relocate rank config m with ⟨e | v, w'⟩
  · rcases refusal_of_relocate h with ⟨r, hr, -⟩ | ⟨-, hrefusal⟩
    · exact absurd (hclash.symm.trans hr) (by simp)
    · exact absurd hrefusal (hrole e)
  · exact ⟨v, w', rfl⟩

/-- There is no reason to refuse a value that can be used, a type that can be received and a rank that is not left
over. -/
theorem exists_relocate (w : Worker) (rank : Rank) (config : Config) (hclash : clash? m.pairs = none)
    (hvalue : w.program.Available m.value) (htype : ∀ peer, roleOf m.pairs rank = .receiver peer → ¬m.type.Dynamic)
    (hpaired : roleOf m.pairs rank = .bystander → rank ∉ m.src.mesh ∧ rank ∉ m.dst.mesh) :
    ∃ v w', w.relocate rank config m = (.ok v, w') := by
  refine exists_relocate_of_not_refusal w rank config hclash fun e hrefusal => ?_
  generalize roleOf m.pairs rank = role at htype hpaired hrefusal
  cases hrefusal with
  | sender hchunk =>
    obtain ⟨chunk, hok⟩ := hvalue.exists_definingChunk
    exact absurd (hok.symm.trans hchunk) (by simp)
  | receiver hdynamic => exact htype _ rfl hdynamic
  | leftOver hrank => exact not_or.2 (hpaired rfl) hrank
  | bystander hsrc hdst hunknown => exact hunknown hvalue.lt

/-- Whether a relocation succeeds or not, its effect on the program is a list of insertions. -/
theorem exists_relocate_program (w : Worker) (rank : Rank) (config : Config) (m : Relocation) :
    ∃ ds, (∀ d ∈ ds, w.program.Known d) ∧ (w.relocate rank config m).2.program = w.program.placeAll ds := by
  rcases h : w.relocate rank config m with ⟨e | v, w'⟩
  · exact ⟨[], List.forall_mem_nil _, (relocate_eq_error h).1⟩
  · obtain ⟨-, -, ds, hpart, hprogram⟩ := relocate_eq_ok h
    exact ⟨ds, hpart.known, hprogram⟩

/-- Whether a relocation succeeds or not, its effect on the groups is a list of requests. -/
theorem exists_relocate_groups (w : Worker) (rank : Rank) (config : Config) (m : Relocation) :
    ∃ members, (w.relocate rank config m).2.groups = w.groups.requestAll members := by
  rcases h : w.relocate rank config m with ⟨e | v, w'⟩
  · have hgroups := (relocate_eq_error h).2
    split at hgroups
    · exact ⟨_, hgroups⟩
    · exact ⟨[], hgroups⟩
  · exact ⟨_, (relocate_eq_ok h).2.1⟩

/-- The default strategies relocate between suitable placements as `relocate` does. -/
theorem relocateWith_defaults (hm : m.src.Relocatable m.dst) :
    w.relocateWith Strategy.defaults rank config m =
      (w.note (.strategyChosen m.value "same_status")).relocate rank config m := by
  have hchoose : Strategy.choose? Strategy.defaults m.src m.dst = some Strategy.sameLayout := by
    simp [Strategy.choose?, Strategy.defaults, Strategy.sameLayout, hm]
  unfold relocateWith
  rw [hchoose]
  rfl

/-- Between other placements the default strategies do nothing. -/
theorem relocateWith_unsuitable (hm : ¬m.src.Relocatable m.dst) :
    w.relocateWith Strategy.defaults rank config m = (.error (.unsupported m.value m.src m.dst), w) := by
  have hchoose : Strategy.choose? Strategy.defaults m.src m.dst = none := by
    simp [Strategy.choose?, Strategy.defaults, Strategy.sameLayout, hm]
  unfold relocateWith
  rw [hchoose]

theorem exists_relocateWith_groups (w : Worker) (rank : Rank) (config : Config) (m : Relocation) :
    ∃ members, (w.relocateWith Strategy.defaults rank config m).2.groups = w.groups.requestAll members := by
  by_cases hm : m.src.Relocatable m.dst
  · rw [relocateWith_defaults hm]
    exact exists_relocate_groups (w.note (.strategyChosen m.value "same_status")) rank config m
  · exact ⟨[], congrArg (fun r => r.2.groups) (relocateWith_unsuitable hm)⟩

end Worker

end CrossMesh
