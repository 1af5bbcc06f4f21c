import CrossMesh.Proofs.Program.Tables

/-!
# The execution order as a tape

A tape is an execution order that is torn in two where the next operation goes: what is inserted goes to the end of the
left part, and moving the insertion point tears the tape elsewhere.  No places are counted.  A program counts them: its
insertion point is a number, which insertions advance and removals left of it take back.  `Program.tape` reads the
program as a tape, and every call does to it just what it says (`Coherent.tape_act`, `Coherent.tape_run`).
-/

namespace CrossMesh

/-! ### Tapes -/

/-- The operations left of the insertion point and those right of it. -/
structure Tape where
  left : List OpId := []
  right : List OpId := []

namespace Tape

inductive Edit
  | insert (op : OpId)
  | before (op : OpId)
  | after (op : OpId)
  | atEnd
  | remove (op : OpId)

/-- The edit moves the insertion point and does nothing else. -/
def Edit.Moves : Edit → Prop
  | insert _ => False
  | before _ => True
  | after _ => True
  | atEnd => True
  | remove _ => False

instance : DecidablePred Edit.Moves
  | .insert _ | .remove _ => isFalse id
  | .before _ | .after _ | .atEnd => isTrue trivial

def order (t : Tape) : List OpId := t.left ++ t.right

/-- The tape after an edit; the insertion point is moved to operations that are on the tape. -/
def edit (t : Tape) : Edit → Tape
  | .insert op => ⟨t.left ++ [op], t.right⟩
  | .before op => ⟨t.order.takeWhile (· ≠ op), t.order.dropWhile (· ≠ op)⟩
  | .after op => ⟨t.order.takeWhile (· ≠ op) ++ [op], (t.order.dropWhile (· ≠ op)).tail⟩
  | .atEnd => ⟨t.order, []⟩
  | .remove op => ⟨t.left.filter (· ≠ op), t.right.filter (· ≠ op)⟩

/-- The tape after several edits. -/
def editAll (t : Tape) (edits : List Edit) : Tape := edits.foldl edit t

theorem editAll_append (t : Tape) (edits more : List Edit) :
    t.editAll (edits ++ more) = (t.editAll edits).editAll more :=
  List.foldl_append

theorem editAll_insert (t : Tape) (ops : List OpId) : t.editAll (ops.map .insert) = ⟨t.left ++ ops, t.right⟩ := by
  induction ops generalizing t with
  | nil => exact congrArg (Tape.mk · t.right) (List.append_nil _).symm
  | cons op ops ih =>
    show (t.edit (.insert op)).editAll (ops.map .insert) = _
    rw [ih, edit, ← List.append_cons]

theorem editAll_remove (t : Tape) (ops : List OpId) :
    t.editAll (ops.map .remove) = ⟨t.left.filter (· ∉ ops), t.right.filter (· ∉ ops)⟩ := by
  have shorter : ∀ (op : OpId) (ops l : List OpId),
      (l.filter (· ≠ op)).filter (· ∉ ops) = l.filter (· ∉ op :: ops) := by
    intro op ops l
    rw [List.filter_filter]
    exact List.filter_congr fun x _ => by simp [Bool.and_comm]
  induction ops generalizing t with
  | nil => simp [editAll]
  | cons op ops ih =>
    show (t.edit (.remove op)).editAll (ops.map .remove) = _
    rw [ih, edit, shorter, shorter]

end Tape

namespace Program

/-! ### What a call does to the tape -/

/-- The program as a tape. -/
def tape (p : Program) : Tape := ⟨p.left, p.right⟩

/-- The edits that a call makes if it succeeds; a call that fails makes none. -/
def editsOf {ε α : Type} (f : α → List Tape.Edit) : Except ε α → List Tape.Edit
  | .ok x => f x
  | .error _ => []

/-- The edits that a call makes. -/
def edits (p : Program) : Action → List Tape.Edit
  | .insert d => editsOf (fun r => [.insert r.1]) (p.insert d)
  | .before op => editsOf (fun _ => [.before op]) (p.before op)
  | .after op => editsOf (fun _ => [.after op]) (p.after op)
  | .atEnd => [.atEnd]
  | .remove op => editsOf (fun _ => [.remove op]) (p.remove op)
  | .relocate groups rank config m => (p.newOps (.relocate groups rank config m)).map .insert
  | .prune rank => editsOf (fun r => r.1.map fun u => .remove u.1) (p.prune rank)
  | .addInput .. | .setPlacement .. | .setStream .. | .setType .. => []

/-- The edits that several calls make. -/
def allEdits (p : Program) : List Action → List Tape.Edit
  | [] => []
  | a :: actions => p.edits a ++ (p.act a).allEdits actions

/-! ### One change -/

theorem tape_order (p : Program) : p.tape.order = p.order := p.left_append_right

theorem tape_placeAll {p : Program} (h : p.CursorInside) (ds : List Draft) :
    (p.placeAll ds).tape = p.tape.editAll (((p.placed ds).map Prod.fst).map .insert) := by
  induction ds generalizing p with
  | nil => rfl
  | cons d ds ih =>
    have hplace : (p.place d).tape = p.tape.edit (.insert p.nextOp) := by
      rw [tape, left_place h, right_place h]
      rfl
    show ((p.place d).placeAll ds).tape = _
    rw [ih (cursorInside_place h d), hplace]
    rfl

/-- The place of an operation in the execution order tells the tape apart there. -/
theorem take_of_position {p : Program} {op : OpId} {i : Nat} (h : p.position op = .ok i) :
    p.order.take i = p.order.takeWhile (· ≠ op) ∧ p.order.drop i = p.order.dropWhile (· ≠ op) ∧
      p.order[i]? = some op := by
  have hi := position_eq_ok_iff.1 h
  obtain ⟨hlt, heq, -⟩ := List.idxOf?_eq_some_iff.1 hi
  have hfind : p.order.findIdx (fun x => !decide (x ≠ op)) = i := by
    have hpred : (fun x => !decide (x ≠ op)) = (· == op) := by
      funext x
      rw [Bool.eq_iff_iff]
      simp
    rw [hpred]
    exact (List.findIdx?_eq_some_iff_findIdx_eq.1 hi).2
  refine ⟨?_, ?_, ?_⟩
  · rw [List.takeWhile_eq_take_findIdx_not, hfind]
  · rw [List.dropWhile_eq_drop_findIdx_not, hfind]
  · rw [List.getElem?_eq_getElem hlt, heq]

theorem tape_before {p q : Program} {op : OpId} (h : p.before op = .ok q) : q.tape = p.tape.edit (.before op) := by
  unfold before at h
  cases hi : p.position op with
  | error e => simp [hi, Except.map] at h
  | ok i =>
    simp only [hi, Except.map, Except.ok.injEq] at h
    subst h
    obtain ⟨hleft, hright, -⟩ := take_of_position hi
    rw [Tape.edit, tape_order, ← hleft, ← hright]
    rfl

theorem tape_after {p q : Program} {op : OpId} (h : p.after op = .ok q) : q.tape = p.tape.edit (.after op) := by
  unfold after at h
  cases hi : p.position op with
  | error e => simp [hi, Except.map] at h
  | ok i =>
    simp only [hi, Except.map, Except.ok.injEq] at h
    subst h
    obtain ⟨hleft, hright, hop⟩ := take_of_position hi
    have htake : p.order.take (i + 1) = p.order.take i ++ [op] := by rw [List.take_add_one, hop]; rfl
    rw [Tape.edit, tape_order, ← hleft, ← hright, List.tail_drop, ← htake]
    rfl

theorem tape_atEnd (p : Program) : p.atEnd.tape = p.tape.edit .atEnd := by
  show Tape.mk (p.order.take p.order.length) (p.order.drop p.order.length) = _
  rw [List.take_length, List.drop_length, Tape.edit, tape_order]

namespace Coherent

variable {p q : Program} {op : OpId} {o : Operation}

theorem cut_remove (hp : p.Coherent) (h : p.remove op = .ok (o, q)) : q.cut = (p.left.filter (· ≠ op)).length := by
  obtain ⟨i, hi, -, -, rfl⟩ := remove_eq_ok h
  obtain ⟨hlt, heq, -⟩ := List.idxOf?_eq_some_iff.1 hi
  have hnodup : p.left.Nodup := hp.nodup_order.sublist (List.take_sublist ..)
  have hfilter : p.left.filter (· ≠ op) = p.left.erase op := by
    rw [hnodup.erase_eq_filter]
    exact List.filter_congr fun x _ => by rw [Bool.eq_iff_iff, bne_iff_ne, decide_eq_true_eq]
  have hmem : op ∈ p.left ↔ i < p.cut := by
    have hidx : p.order.idxOf op = i := (List.findIdx?_eq_some_iff_findIdx_eq.1 hi).2
    rw [left, List.mem_take_iff_idxOf_lt (heq ▸ List.getElem_mem hlt), hidx]
  rw [hfilter, List.length_erase, length_left hp.cursorInside, cut_eraseIdx hlt]
  simp only [hmem]

theorem tape_remove (hp : p.Coherent) (h : p.remove op = .ok (o, q)) : q.tape = p.tape.edit (.remove op) := by
  have horder : q.order = p.left.filter (· ≠ op) ++ p.right.filter (· ≠ op) := by
    rw [hp.order_remove h, ← left_append_right, List.filter_append]
  rw [tape, left, right, hp.cut_remove h, horder, List.take_left' rfl, List.drop_left' rfl]
  rfl

theorem tape_removeAll (hp : p.Coherent) {ops : List OpId} {removed : List (OpId × Operation)}
    (h : p.removeAll ops = .ok (removed, q)) : q.tape = p.tape.editAll ((removed.map Prod.fst).map .remove) := by
  induction ops generalizing p removed with
  | nil =>
    obtain ⟨rfl, rfl⟩ := Prod.mk.inj (Except.ok.inj h)
    rfl
  | cons op ops ih =>
    obtain ⟨o, r, more, hrem, hall, rfl⟩ := removeAll_cons_eq_ok h
    rw [ih (hp.remove hrem) hall, hp.tape_remove hrem]
    rfl

end Coherent

/-! ### One call -/

theorem edits_of_fails {p : Program} {a : Action} (h : p.Fails a) : p.edits a = [] := by
  cases a with
  | addInput | setPlacement | setStream | setType => rfl
  | atEnd => exact absurd h id
  | insert | before | after | remove =>
    obtain ⟨e, he⟩ := h
    simp only [edits, he, editsOf]
  | relocate groups rank config m =>
    have hnone := newOps_eq_nil (p := p) (a := .relocate groups rank config m) (by simp [act_of_fails h])
    exact congrArg (List.map Tape.Edit.insert) hnone
  | prune rank =>
    obtain ⟨e, he⟩ := h
    cases hprune : p.prune rank with
    | error e' => simp only [edits, hprune, editsOf]
    | ok r =>
      obtain ⟨journal, heq⟩ := Worker.prune_eq (w := { program := p }) hprune
      rw [heq] at he
      exact absurd he (by simp)

namespace Coherent

variable {p : Program}

/-- A call inserts operations, removes operations, moves the insertion point, or leaves the tape alone. -/
theorem edits_cases (hp : p.Coherent) (a : Action) :
    (∃ ds, (∀ d ∈ ds, p.Known d) ∧ p.act a = p.placeAll ds ∧ p.edits a = ((p.placed ds).map Prod.fst).map .insert) ∨
      (∃ ops removed, p.removeAll ops = .ok (removed, p.act a) ∧ p.edits a = (removed.map Prod.fst).map .remove) ∨
      (∃ e, e.Moves ∧ p.edits a = [e] ∧ (p.act a).tape = p.tape.edit e) ∨
      p.edits a = [] ∧ (p.act a).tape = p.tape := by
  by_cases hfails : p.Fails a
  · exact .inr (.inr (.inr ⟨edits_of_fails hfails, congrArg tape (act_of_fails hfails)⟩))
  have changed : ∀ (op : OpId) (f : Operation → Operation), (p.orElse (p.setOp op f)).tape = p.tape := by
    intro op f
    cases hset : p.setOp op f with
    | error e => rfl
    | ok q =>
      obtain ⟨o, -, rfl⟩ := setOp_eq_ok hset
      rfl
  cases a with
  | addInput type placement => exact .inr (.inr (.inr ⟨rfl, rfl⟩))
  | setPlacement op placement =>
    exact .inr (.inr (.inr ⟨rfl, changed op fun o => { o with placement := some placement }⟩))
  | setStream op stream => exact .inr (.inr (.inr ⟨rfl, changed op fun o => { o with stream := some stream }⟩))
  | setType v type =>
    refine .inr (.inr (.inr ⟨rfl, ?_⟩))
    cases hset : p.setType v type with
    | error e => exact absurd ⟨e, hset⟩ hfails
    | ok q =>
      simp only [Program.act, hset]
      obtain ⟨x, -, rfl⟩ := setType_eq_ok hset
      rfl
  | insert d =>
    cases hins : p.insert d with
    | error e => exact absurd ⟨e, hins⟩ hfails
    | ok r =>
      obtain ⟨hd, hop, hr⟩ := insert_eq_ok hins
      simp only [edits, Program.act, hins, editsOf]
      exact .inl ⟨[d], List.forall_mem_singleton.2 hd, hr, by rw [hop]; rfl⟩
  | before op =>
    cases hmove : p.before op with
    | error e => exact absurd ⟨e, hmove⟩ hfails
    | ok q =>
      simp only [edits, Program.act, hmove, editsOf]
      exact .inr (.inr (.inl ⟨.before op, trivial, rfl, tape_before hmove⟩))
  | after op =>
    cases hmove : p.after op with
    | error e => exact absurd ⟨e, hmove⟩ hfails
    | ok q =>
      simp only [edits, Program.act, hmove, editsOf]
      exact .inr (.inr (.inl ⟨.after op, trivial, rfl, tape_after hmove⟩))
  | atEnd => exact .inr (.inr (.inl ⟨.atEnd, trivial, rfl, tape_atEnd p⟩))
  | remove op =>
    cases hrem : p.remove op with
    | error e => exact absurd ⟨e, hrem⟩ hfails
    | ok r =>
      simp only [edits, Program.act, hrem, editsOf]
      exact .inr (.inl ⟨[op], [(op, r.1)], by simp only [removeAll, hrem]; rfl, rfl⟩)
  | relocate groups rank config m =>
    obtain ⟨ds, hds, heq⟩ := Worker.exists_relocate_program { program := p, groups } rank config m
    have hact : p.act (.relocate groups rank config m) = p.placeAll ds := heq
    exact .inl ⟨ds, hds, hact, congrArg (List.map Tape.Edit.insert) (hp.newOps_of_placeAll hds hact)⟩
  | prune rank =>
    obtain ⟨removed, q, hprune, -⟩ := hp.exists_prune rank
    obtain ⟨journal, heq⟩ := Worker.prune_eq (w := { program := p }) hprune
    simp only [edits, Program.act, hprune, heq, editsOf]
    exact .inr (.inl ⟨removed.map Prod.fst, removed, hp.removeAll_of_prune hprune, by rw [List.map_map]; rfl⟩)

/-- A call does to the tape what its edits say. -/
theorem tape_act (hp : p.Coherent) (a : Action) : (p.act a).tape = p.tape.editAll (p.edits a) := by
  rcases hp.edits_cases a with ⟨ds, -, heq, hedits⟩ | ⟨ops, removed, hall, hedits⟩ | ⟨e, -, hedits, htape⟩ |
    ⟨hedits, htape⟩
  · rw [hedits, heq, tape_placeAll hp.cursorInside]
  · rw [hedits, hp.tape_removeAll hall]
  · rw [hedits, htape]
    rfl
  · rw [hedits, htape]
    rfl

/-! ### Many calls -/

theorem tape_run (hp : p.Coherent) (actions : List Action) :
    (p.run actions).tape = p.tape.editAll (p.allEdits actions) := by
  induction actions generalizing p with
  | nil => rfl
  | cons a actions ih =>
    show ((p.act a).run actions).tape = _
    rw [ih (hp.act a), hp.tape_act a, allEdits, Tape.editAll_append]

end Coherent

end Program

end CrossMesh
