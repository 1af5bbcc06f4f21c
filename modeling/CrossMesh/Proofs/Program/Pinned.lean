import CrossMesh.Proofs.Program.Answers

/-!
# Programs without an insertion point

A program without an insertion point inserts at the end, and so does one whose insertion point is behind the last
operation.  `Program.pinned` turns the one into the other.  Nothing tells them apart: every call answers the same to
both, and leaves behind programs that differ no more than these did (`trace_eq_of_pinned_eq`).
-/

namespace CrossMesh

/-- The program with an insertion point where it inserts anyway. -/
def Program.pinned (p : Program) : Program := { p with cursor := some p.cut }

/-- The worker with an insertion point in its program. -/
def Worker.pinned (w : Worker) : Worker := { w with program := w.program.pinned }

namespace Program

/-! ### Changes of a pinned program -/

theorem pinned_of_cursor {p : Program} {c : Nat} (h : p.cursor = some c) : p.pinned = p := by
  unfold pinned cut
  rw [h]
  exact (congrArg (fun cursor => { p with cursor }) h).symm

theorem pinned_pinned (p : Program) : p.pinned.pinned = p.pinned := rfl

theorem place_pinned (p : Program) (d : Draft) : p.pinned.place d = (p.place d).pinned := by
  cases hc : p.cursor with
  | none =>
    unfold pinned cut place
    simp [hc, nextOp, draftOperation, draftResults]
  | some c =>
    rw [pinned_of_cursor hc, pinned_of_cursor (c := c + 1)]
    simp [place, hc]

theorem insert_pinned (p : Program) (d : Draft) : p.pinned.insert d = (p.insert d).map (Prod.map id pinned) := by
  have hvalues : p.pinned.values = p.values := rfl
  unfold insert
  rw [hvalues]
  cases d.operands.find? fun v => p.values.size ≤ v.index with
  | some v => rfl
  | none => exact congrArg (fun q => Except.ok (p.nextOp, q)) (place_pinned p d)

theorem setOp_pinned (p : Program) (op : OpId) (f : Operation → Operation) :
    p.pinned.setOp op f = (p.setOp op f).map pinned := by
  show (p.op op).map _ = ((p.op op).map _).map pinned
  cases p.op op <;> rfl

theorem setType_pinned (p : Program) (v : ValueId) (type : TensorType) :
    p.pinned.setType v type = (p.setType v type).map pinned := by
  show (p.value v).map _ = ((p.value v).map _).map pinned
  cases p.value v <;> rfl

theorem setResultType_pinned (p : Program) (op : OpId) (type : TensorType) :
    p.pinned.setResultType op type = (p.setResultType op type).map pinned := by
  have hresult : p.pinned.firstResult op = p.firstResult op := rfl
  unfold setResultType
  rw [hresult]
  cases p.firstResult op with
  | error e => rfl
  | ok v => exact setType_pinned p v type

/-- Changes that do not look at the insertion point do the same to a pinned program. -/
theorem changeAll_pinned {fs : List (Program → Except ProgramError Program)}
    (h : ∀ f ∈ fs, ∀ p : Program, f p.pinned = (f p).map pinned) (p : Program) :
    p.pinned.changeAll fs = Prod.map id pinned (p.changeAll fs) := by
  induction fs generalizing p with
  | nil => rfl
  | cons f fs ih =>
    obtain ⟨hf, hfs⟩ := List.forall_mem_cons.1 h
    unfold changeAll
    rw [hf]
    cases f p with
    | error e => rfl
    | ok q => exact ih hfs q

theorem remove_pinned (p : Program) (op : OpId) : p.pinned.remove op = (p.remove op).map (Prod.map id pinned) := by
  unfold remove
  have hposition : p.pinned.position op = p.position op := rfl
  have hop : p.pinned.op op = p.op op := rfl
  have husers : p.pinned.hasUsers = p.hasUsers := rfl
  rw [hposition, hop]
  cases hi : p.position op with
  | error e => rfl
  | ok i =>
    cases p.op op with
    | error e => rfl
    | ok o =>
      simp only [husers]
      cases o.results.find? p.hasUsers with
      | some v => rfl
      | none =>
        simp only [Except.map, Prod.map, id_eq, pinned, cut_eraseIdx (lt_of_position_eq_ok hi)]
        rfl

theorem removeAll_pinned (p : Program) (ops : List OpId) :
    p.pinned.removeAll ops = (p.removeAll ops).map (Prod.map id pinned) := by
  induction ops generalizing p with
  | nil => rfl
  | cons op ops ih =>
    unfold removeAll
    rw [remove_pinned]
    cases p.remove op with
    | error e => rfl
    | ok r =>
      show (r.2.pinned.removeAll ops).map _ = ((r.2.removeAll ops).map _).map _
      rw [ih]
      cases r.2.removeAll ops <;> rfl

theorem prune_pinned (p : Program) (rank : Rank) : p.pinned.prune rank = (p.prune rank).map (Prod.map id pinned) := by
  have hprunable : ∀ q : Program, q.pinned.prunable rank = q.prunable rank := fun _ => rfl
  -- The rounds of the two find the same operations.
  fun_induction p.prune rank with
  | case1 p hround => exact prune_of_nil hround
  | case2 p op ops hround e herror =>
    refine prune_of_removeAll_error ?_
    rw [hprunable, hround, removeAll_pinned, herror]
    rfl
  | case3 p op ops hround removed q hok ih =>
    have hsome : p.pinned.prunable rank ≠ [] := by simp [hprunable, hround]
    have hall : p.pinned.removeAll (p.pinned.prunable rank) = .ok (removed, q.pinned) := by
      rw [hprunable, hround, removeAll_pinned, hok]
      rfl
    rw [prune_of_removeAll hsome hall, ih]
    cases q.prune rank <;> rfl

end Program

/-! ### Workers with a pinned program -/

namespace Worker

variable (w : Worker) (rank peer : Rank) (config : Config) (m : Relocation)

theorem insert_pinned (d : Program.Draft) : w.pinned.insert d = Prod.map id pinned (w.insert d) := by
  have hinsert : w.pinned.program.insert d = _ := Program.insert_pinned w.program d
  unfold insert
  rw [hinsert]
  cases w.program.insert d <;> rfl

theorem build_pinned (d : Program.Draft) {changes : OpId → List (Program → Except ProgramError Program)}
    (h : ∀ op, ∀ f ∈ changes op, ∀ p : Program, f p.pinned = (f p).map Program.pinned) :
    w.pinned.build d changes = Prod.map id pinned (w.build d changes) := by
  unfold build
  rw [insert_pinned]
  rcases w.insert d with ⟨e | op, w'⟩
  · rfl
  · have hchanges : w'.pinned.program.changeAll (changes op) = _ := Program.changeAll_pinned (h op) w'.program
    simp only [Prod.map, id_eq, hchanges]
    rcases w'.program.changeAll (changes op) with ⟨e | -, p⟩ <;> rfl

theorem buildResult_pinned (d : Program.Draft) {changes : OpId → List (Program → Except ProgramError Program)}
    (h : ∀ op, ∀ f ∈ changes op, ∀ p : Program, f p.pinned = (f p).map Program.pinned) :
    w.pinned.buildResult d changes = Prod.map id pinned (w.buildResult d changes) := by
  unfold buildResult
  rw [build_pinned w d h]
  rcases w.build d changes with ⟨e | op, w'⟩ <;> rfl

theorem insertSend_pinned (group : Nat) (chunk : Int) (stream : StreamKind) :
    w.pinned.insertSend m group chunk stream = Prod.map id pinned (w.insertSend m group chunk stream) :=
  build_pinned w _ fun op => List.forall_mem_cons.2 ⟨fun p => p.setOp_pinned op _,
    List.forall_mem_cons.2 ⟨fun p => p.setOp_pinned op _, List.forall_mem_nil _⟩⟩

theorem insertReceive_pinned (group : Nat) (chunk : Int) (stream : StreamKind) :
    w.pinned.insertReceive m group chunk stream = Prod.map id pinned (w.insertReceive m group chunk stream) :=
  buildResult_pinned w _ fun op => List.forall_mem_cons.2 ⟨fun p => p.setOp_pinned op _,
    List.forall_mem_cons.2 ⟨fun p => p.setResultType_pinned op _,
      List.forall_mem_cons.2 ⟨fun p => p.setOp_pinned op _, List.forall_mem_nil _⟩⟩⟩

theorem standIn_pinned : w.pinned.standIn m = Prod.map id pinned (w.standIn m) := by
  have hins : w.pinned.insertPlaceholder m = Prod.map id pinned (w.insertPlaceholder m) :=
    buildResult_pinned w _ fun op => List.forall_mem_cons.2 ⟨fun p => p.setOp_pinned op _, List.forall_mem_nil _⟩
  unfold standIn
  rw [hins]
  rcases w.insertPlaceholder m with ⟨e | v, w'⟩ <;> rfl

theorem request_pinned (ranks : List Rank) (kind : GroupKind) :
    w.pinned.request ranks kind = Prod.map id pinned (w.request ranks kind) := by
  have hgroups : w.pinned.groups = w.groups := rfl
  unfold request
  rw [hgroups]
  cases w.groups.find? ranks kind <;> rfl

theorem requestChannels_pinned (members : List (List Rank)) :
    w.pinned.requestChannels members = (w.requestChannels members).pinned := by
  induction members generalizing w with
  | nil => rfl
  | cons ranks members ih =>
    show (w.pinned.request ranks .pointToPoint).2.requestChannels members = _
    rw [request_pinned]
    exact ih _

theorem send_pinned : w.pinned.send rank peer config m = Prod.map id pinned (w.send rank peer config m) := by
  have hchunk : w.pinned.program.definingChunk m.value = w.program.definingChunk m.value := rfl
  unfold send
  rw [hchunk]
  cases w.program.definingChunk m.value with
  | error e => rfl
  | ok chunk =>
    rcases hreq : w.request [rank, peer] .pointToPoint with ⟨g, w'⟩
    have hpinned : w.pinned.request [rank, peer] .pointToPoint = (g, w'.pinned) := by rw [request_pinned, hreq]; rfl
    simp only [hpinned, insertSend_pinned]
    rcases w'.insertSend m g.id chunk config.stream with ⟨e | op, w''⟩ <;> rfl

theorem receive_pinned : w.pinned.receive rank peer config m = Prod.map id pinned (w.receive rank peer config m) := by
  have hchunk : w.pinned.program.receivingChunk m.value m.dst.mesh = w.program.receivingChunk m.value m.dst.mesh := rfl
  unfold receive
  by_cases htype : m.type.Dynamic
  · simp only [htype, ↓reduceIte]
    rfl
  · rcases hreq : w.request [peer, rank] .pointToPoint with ⟨g, w'⟩
    have hpinned : w.pinned.request [peer, rank] .pointToPoint = (g, w'.pinned) := by rw [request_pinned, hreq]; rfl
    simp only [htype, ↓reduceIte, hchunk, hpinned, insertReceive_pinned]
    rcases w'.insertReceive m g.id (w.program.receivingChunk m.value m.dst.mesh) config.stream with
      ⟨e | v, w''⟩ <;> rfl

theorem perform_pinned (role : Role) :
    w.pinned.perform rank config m role = Prod.map id pinned (w.perform rank config m role) := by
  cases role with
  | sender peer =>
    simp only [perform, send_pinned]
    rcases w.send rank peer config m with ⟨e | -, w'⟩
    · rfl
    · exact standIn_pinned w' m
  | receiver peer => exact receive_pinned w rank peer config m
  | stationary => rfl
  | bystander =>
    by_cases hin : rank ∈ m.src.mesh ∨ rank ∈ m.dst.mesh
    · simp only [perform, hin, ↓reduceIte]
      rfl
    · simp only [perform, hin, ↓reduceIte]
      exact standIn_pinned w m

theorem relocate_pinned : w.pinned.relocate rank config m = Prod.map id pinned (w.relocate rank config m) := by
  unfold relocate
  cases clash? m.pairs with
  | some r => rfl
  | none =>
    have hprepared : w.pinned.prepared rank config m = (w.prepared rank config m).pinned :=
      congrArg (fun w' : Worker => w'.note (.roleResolved rank (roleOf m.pairs rank) m.value))
        (requestChannels_pinned w (channels m.pairs (some rank) config.eagerReverse))
    simp only [hprepared]
    exact perform_pinned _ rank config m _

private theorem foldl_note_pinned (us : List (OpId × Operation)) :
    us.foldl (fun w r => w.note (.removed r.1 r.2.name)) w.pinned =
      (us.foldl (fun w r => w.note (.removed r.1 r.2.name)) w).pinned := by
  induction us generalizing w with
  | nil => rfl
  | cons u us ih => exact ih (w.note (.removed u.1 u.2.name))

theorem prune_pinned : w.pinned.prune rank = Prod.map id pinned (w.prune rank) := by
  have hprune : w.pinned.program.prune rank = _ := Program.prune_pinned w.program rank
  unfold prune
  rw [hprune]
  cases w.program.prune rank with
  | error e => rfl
  | ok r =>
    have hnotes := foldl_note_pinned { w with program := r.2 } r.1
    exact congrArg (fun w' : Worker => (Except.ok r.1.length, w'.note (.pruned r.1.length rank))) hnotes

end Worker

/-! ### Calls on a pinned program -/

namespace Program

/-- A call answers the same to a pinned program and leaves the same behind, up to pinning. -/
theorem answer_act_pinned (p : Program) (a : Action) :
    p.pinned.answer a = p.answer a ∧ (p.pinned.act a).pinned = (p.act a).pinned := by
  cases a with
  | addInput | atEnd => exact ⟨rfl, rfl⟩
  | before op =>
    have hsame : p.pinned.before op = p.before op := rfl
    simp only [answer, act, hsame]
    cases p.before op <;> exact ⟨trivial, rfl⟩
  | after op =>
    have hsame : p.pinned.after op = p.after op := rfl
    simp only [answer, act, hsame]
    cases p.after op <;> exact ⟨trivial, rfl⟩
  | insert d =>
    simp only [answer, act, insert_pinned]
    cases p.insert d <;> exact ⟨rfl, rfl⟩
  | remove op =>
    simp only [answer, act, remove_pinned]
    cases p.remove op <;> exact ⟨rfl, rfl⟩
  | setPlacement op placement =>
    simp only [answer, act, setPlacement, setOp_pinned]
    cases p.setOp op (fun o => { o with placement := some placement }) <;> exact ⟨rfl, rfl⟩
  | setStream op stream =>
    simp only [answer, act, setStream, setOp_pinned]
    cases p.setOp op (fun o => { o with stream := some stream }) <;> exact ⟨rfl, rfl⟩
  | setType v type =>
    simp only [answer, act, setType_pinned]
    cases p.setType v type <;> exact ⟨rfl, rfl⟩
  | relocate groups rank config m =>
    have hrelocate := Worker.relocate_pinned { program := p, groups } rank config m
    have hanswer := congrArg Prod.fst hrelocate
    have hafter := congrArg Prod.snd hrelocate
    exact ⟨congrArg (Except.map Answer.value) hanswer, congrArg (fun w => w.program.pinned) hafter⟩
  | prune rank =>
    have hprune := Worker.prune_pinned { program := p } rank
    have hanswer := congrArg Prod.fst hprune
    have hafter := congrArg Prod.snd hprune
    exact ⟨congrArg (reply Answer.count) hanswer, congrArg (fun w => w.program.pinned) hafter⟩

/-- What is reported, up to pinning the program. -/
def Report.pinned (x : Report) : Report := ⟨x.answer, x.program.pinned⟩

/-- Programs that differ only in whether their insertion point at the end is there are told apart by no calls. -/
theorem trace_eq_of_pinned_eq {p q : Program} (h : p.pinned = q.pinned) (actions : List Action) :
    (p.trace actions).map Report.pinned = (q.trace actions).map Report.pinned := by
  induction actions generalizing p q with
  | nil => rfl
  | cons a actions ih =>
    obtain ⟨hanswer, hact⟩ := answer_act_pinned p a
    obtain ⟨hanswer', hact'⟩ := answer_act_pinned q a
    rw [h] at hanswer hact
    have hafter : (p.act a).pinned = (q.act a).pinned := hact.symm.trans hact'
    have hhead : Report.pinned ⟨p.answer a, p.act a⟩ = Report.pinned ⟨q.answer a, q.act a⟩ := by
      simp only [Report.pinned, hafter, ← hanswer, hanswer']
    show _ :: ((p.act a).trace actions).map Report.pinned = _ :: ((q.act a).trace actions).map Report.pinned
    rw [hhead, ih hafter]

end Program

end CrossMesh
