import CrossMesh.Proofs.Program.Tape
import CrossMesh.Proofs.Program.Growth
import CrossMesh.Proofs.Relocation.Matching

/-!
# A relocation is a splice

A relocation that succeeds puts at most two operations at the insertion point, one behind the other, and moves the
point behind them.  `Relocation.Inserts` says which operations these are for each role, with everything that is written
on them, and `Program.Spliced` that the rest of the program is as it was: every operation and every value that was
there, what was removed included, is looked up as before (`relocate_splices`).
-/

namespace CrossMesh

namespace Program

/-- The ids of the next `n` operations. -/
def nextOps (p : Program) (n : Nat) : List OpId := (List.range n).map fun i => ⟨p.ops.size + i⟩

/-- The program `q` is `p` with new operations at the insertion point, which is right behind them then.  Operations,
values and placements of values that were there are looked up as before. -/
structure Spliced (p : Program) (new : List Operation) (q : Program) : Prop where
  size_ops : q.ops.size = p.ops.size + new.length
  size_values : q.values.size = p.values.size + (new.flatMap Operation.results).length
  order_eq : q.order = p.left ++ p.nextOps new.length ++ p.right
  left_eq : q.left = p.left ++ p.nextOps new.length
  cursor_eq : q.cursor = p.cursor.map (· + new.length)
  op?_new : ∀ i o, new[i]? = some o → q.op? ⟨p.ops.size + i⟩ = some o
  op?_old : ∀ op, op.index < p.ops.size → q.op? op = p.op? op
  value?_old : ∀ v, v.index < p.values.size → q.value? v = p.value? v
  valuePlacement_old : ∀ v, v.index < p.values.size → q.valuePlacement v = p.valuePlacement v

/-- The chunk written on the operation that makes a value, `unscheduled` for an input. -/
inductive DefinerChunk (p : Program) (v : ValueId) : Int → Prop
  | input {x : Value} {placement : Option Placement} (hx : p.value? v = some x) (horigin : x.origin = .input placement) :
      DefinerChunk p v unscheduled
  | result {x : Value} {op : OpId} {i : Nat} {o : Operation} (hx : p.value? v = some x)
      (horigin : x.origin = .result op i) (ho : p.op? op = some o) : DefinerChunk p v o.chunk

theorem definerChunk_of_definingChunk {p : Program} {v : ValueId} {chunk : Int} (h : p.definingChunk v = .ok chunk) :
    p.DefinerChunk v chunk := by
  unfold definingChunk definingOp value at h
  cases hx : p.value? v with
  | none => simp [hx, Except.map] at h
  | some x =>
    cases horigin : x.origin with
    | input placement =>
      simp only [hx, horigin, Except.map, Except.ok.injEq] at h
      subst h
      exact .input hx horigin
    | result op i =>
      unfold Program.op at h
      cases ho : p.op? op with
      | none => simp [hx, horigin, ho, Except.map] at h
      | some o =>
        simp only [hx, horigin, ho, Except.map, Except.ok.injEq] at h
        subst h
        exact .result hx horigin ho

/-! ### Insertions are a splice -/

theorem cursor_placeAll (p : Program) (ds : List Draft) : (p.placeAll ds).cursor = p.cursor.map (· + ds.length) := by
  induction ds generalizing p with
  | nil => exact Option.map_id'.symm
  | cons d ds ih =>
    show ((p.place d).placeAll ds).cursor = _
    have hplace : (p.place d).cursor = p.cursor.map (· + 1) := rfl
    rw [ih, hplace, Option.map_map, List.length_cons]
    refine congrArg (Option.map · p.cursor) (funext fun c => ?_)
    show c + 1 + ds.length = c + (ds.length + 1)
    omega

theorem length_placed (p : Program) (ds : List Draft) : (p.placed ds).length = ds.length := by
  induction ds generalizing p with
  | nil => rfl
  | cons d ds ih => exact congrArg Nat.succ (ih (p.place d))

theorem map_fst_placed (p : Program) (ds : List Draft) : (p.placed ds).map Prod.fst = p.nextOps ds.length := by
  have hindex : ((p.placed ds).map Prod.fst).map OpId.index = (p.nextOps ds.length).map OpId.index := by
    rw [map_index_placed, nextOps, List.map_map, List.range'_eq_map_range]
    rfl
  exact List.map_injective_iff.2 (fun a b hab => by cases a; cases b; exact congrArg OpId.mk hab) hindex

/-- A value that was there has its placement from an operation that was there. -/
theorem Coherent.valuePlacement_placeAll {p : Program} (hp : p.Coherent) (ds : List Draft) {v : ValueId}
    (hv : v.index < p.values.size) : (p.placeAll ds).valuePlacement v = p.valuePlacement v := by
  have hvalue := value?_placeAll_old ds hv
  unfold valuePlacement value Program.op
  rw [hvalue]
  cases hx : p.value? v with
  | none => rfl
  | some x =>
    cases horigin : x.origin with
    | input placement => simp [horigin]
    | result op i =>
      have hop := op?_placeAll_old ds (hp.origin_lt v x op i hx horigin)
      simp [horigin, hop]

theorem Coherent.spliced_placeAll {p : Program} (hp : p.Coherent) {ds : List Draft} (hds : p.Accepts ds) :
    p.Spliced ((p.placed ds).map Prod.snd) (p.placeAll ds) := by
  have hlength : ((p.placed ds).map Prod.snd).length = ds.length := by rw [List.length_map, length_placed]
  have htape : (p.placeAll ds).tape = ⟨p.left ++ p.nextOps ds.length, p.right⟩ := by
    rw [tape_placeAll hp.cursorInside, map_fst_placed, Tape.editAll_insert]
    rfl
  have hleft : (p.placeAll ds).left = p.left ++ p.nextOps ds.length := congrArg Tape.left htape
  have hright : (p.placeAll ds).right = p.right := congrArg Tape.right htape
  have hvalues : (((p.placed ds).map Prod.snd).flatMap Operation.results).length =
      (ds.flatMap fun d => d.types).length := by
    have hindex := congrArg List.length (map_index_results_placed p ds)
    rw [List.length_map, List.length_range'] at hindex
    rw [List.flatMap_map]
    exact hindex
  constructor
  case size_ops => rw [hlength, size_ops_placeAll]
  case size_values => rw [hvalues, size_values_placeAll]
  case order_eq => rw [hlength, ← hleft, ← hright, left_append_right]
  case left_eq => rw [hlength, hleft]
  case cursor_eq => rw [hlength, cursor_placeAll]
  case op?_new =>
    intro i o ho
    rw [List.getElem?_map, Option.map_eq_some_iff] at ho
    obtain ⟨u, hu, rfl⟩ := ho
    have hid : u.1 = ⟨p.ops.size + i⟩ := by
      have hi : ((p.placed ds).map Prod.fst)[i]? = some u.1 := by rw [List.getElem?_map, hu]; rfl
      rw [map_fst_placed, nextOps, List.getElem?_map, Option.map_eq_some_iff] at hi
      obtain ⟨j, hj, heq⟩ := hi
      obtain ⟨hlt, rfl⟩ := List.getElem?_eq_some_iff.1 hj
      rw [List.getElem_range] at heq
      exact heq.symm
    rw [← hid]
    exact hp.op?_of_mem_placed hds (List.mem_of_getElem? hu)
  case op?_old => exact fun op hop => op?_placeAll_old ds hop
  case value?_old => exact fun v hv => value?_placeAll_old ds hv
  case valuePlacement_old => exact fun v hv => hp.valuePlacement_placeAll ds hv

end Program

/-! ### The operations of each role -/

namespace Relocation

/-- The placeholder of a relocation that makes the value `v`. -/
def placeholder (m : Relocation) (v : ValueId) : Operation where
  kind := .placeholder m.dst
  operands := [m.value]
  results := [v]
  placement := some { mesh := m.dst.mesh, operands := [m.src], results := [m.dst], chunk := unscheduled }
  stream := none

/-- The operations that a role inserts into the program `p`, and the value that stands for the destination afterwards,
where `t` is the table of groups after the insertion. -/
inductive Inserts (m : Relocation) (p : Program) (t : Groups) (rank : Rank) (config : Config) :
    Role → List Operation → ValueId → Prop
  | sender {peer : Rank} {g : RankGroup} {chunk : Int} (hg : t.find? [rank, peer] .pointToPoint = some g)
      (hchunk : p.DefinerChunk m.value chunk) :
      Inserts m p t rank config (.sender peer)
        [{ kind := .send g.id 1 false
           operands := [m.value]
           results := []
           placement := some { mesh := m.src.mesh, operands := [m.src], results := [], chunk }
           stream := some config.stream },
          m.placeholder p.nextValue] p.nextValue
  | receiver {peer : Rank} {g : RankGroup} (hg : t.find? [peer, rank] .pointToPoint = some g) :
      Inserts m p t rank config (.receiver peer)
        [{ kind := .receive g.id 0 m.type.elem false
           operands := []
           results := [p.nextValue]
           placement := some { mesh := m.dst.mesh, operands := [], results := [m.dst],
                               chunk := p.receivingChunk m.value m.dst.mesh }
           stream := some config.stream }] p.nextValue
  | stationary : Inserts m p t rank config .stationary [] m.value
  | bystander (hsrc : rank ∉ m.src.mesh) (hdst : rank ∉ m.dst.mesh) :
      Inserts m p t rank config .bystander [m.placeholder p.nextValue] p.nextValue

variable {m : Relocation} {p : Program} {t : Groups} {rank : Rank} {config : Config} {role : Role}
  {ds : List Program.Draft} {v : ValueId}

theorem Part.inserts (h : m.Part p t rank config role ds v) :
    m.Inserts p t rank config role ((p.placed ds).map Prod.snd) v := by
  cases h with
  | @sender peer g chunk hg hchunk =>
    -- The send makes no value, so the placeholder makes the next one.
    have hnext := Program.nextValue_place (p := p) (d := m.sendDraft g.id chunk config.stream) rfl
    have hplaced : (p.placed [m.sendDraft g.id chunk config.stream, m.placeholderDraft]).map Prod.snd =
        [p.draftOperation (m.sendDraft g.id chunk config.stream), m.placeholder p.nextValue] := by
      rw [← hnext]
      rfl
    rw [hplaced]
    exact .sender hg (Program.definerChunk_of_definingChunk hchunk)
  | receiver hg htype => exact .receiver hg
  | stationary => exact .stationary
  | bystander hsrc hdst hvalue => exact .bystander hsrc hdst

/-- What a role inserts has the type of the destination. -/
theorem Part.valueType (h : m.Part p t rank config role ds v) {u : OpId × Operation} (hu : u ∈ p.placed ds)
    {r : ValueId} (hr : r ∈ u.2.results) : (p.placeAll ds).valueType r = .ok m.type := by
  have made : ∀ (q : Program) (d : Program.Draft), d.types = [m.type] → r ∈ q.draftResults d →
      (q.place d).valueType r = .ok m.type := by
    intro q d htypes hr
    rw [Program.draftResults_of_single htypes, List.mem_singleton] at hr
    rw [hr]
    exact Program.valueType_of_value? (Program.value?_place_nextValue htypes)
  cases h with
  | @sender peer g chunk hg hchunk =>
    rcases List.mem_cons.1 hu with rfl | hu
    · exact absurd hr List.not_mem_nil
    · obtain rfl := List.mem_singleton.1 hu
      exact made _ _ rfl hr
  | receiver hg htype =>
    obtain rfl := List.mem_singleton.1 hu
    exact made _ _ rfl hr
  | stationary => exact absurd hu List.not_mem_nil
  | bystander hsrc hdst hvalue =>
    obtain rfl := List.mem_singleton.1 hu
    exact made _ _ rfl hr

end Relocation

/-- A relocation that succeeds splices the operations of the rank's role into the program at the insertion point, and
the values they make have the type of the destination.  All operations and values that were there stay as they were. -/
theorem relocate_splices {w w' : Worker} (hp : w.program.Reachable) {rank : Rank} {config : Config} {m : Relocation}
    {v : ValueId} (h : w.relocate rank config m = (.ok v, w')) :
    ∃ new, m.Inserts w.program w'.groups rank config (roleOf m.pairs rank) new v ∧
      w.program.Spliced new w'.program ∧ ∀ o ∈ new, ∀ r ∈ o.results, w'.program.valueType r = .ok m.type := by
  obtain ⟨-, -, ds, hpart, hprogram⟩ := Worker.relocate_eq_ok h
  rw [hprogram]
  refine ⟨_, hpart.inserts, hp.coherent.spliced_placeAll hpart.accepts, fun o ho r hr => ?_⟩
  obtain ⟨u, hu, rfl⟩ := List.mem_map.1 ho
  exact hpart.valueType hu hr

/-- The program `forked` with the insertion point behind its first operation. -/
def forkedBehindFirst : Program := { Program.forked with cursor := some 1 }

theorem forkedBehindFirst_reachable : forkedBehindFirst.Reachable := by
  obtain ⟨actions, h⟩ := Program.forked_reachable
  refine ⟨actions ++ [.after ⟨0⟩], ?_⟩
  rw [Program.run_append, h]
  rfl

/-- The sender of `overlap` puts its send and its placeholder between the first and the second operation. -/
theorem relocate_splices_overlap : ∃ v w', forkedBehindFirst.Reachable ∧
    Worker.relocate { program := forkedBehindFirst } 0 {} overlap = (.ok v, w') ∧
    (∃ new, overlap.Inserts forkedBehindFirst w'.groups 0 {} (.sender 2) new v ∧
      forkedBehindFirst.Spliced new w'.program) ∧
    w'.program.order = [⟨0⟩, ⟨3⟩, ⟨4⟩, ⟨1⟩, ⟨2⟩] := by
  have hok : ∃ v w', Worker.relocate { program := forkedBehindFirst } 0 {} overlap = (.ok v, w') := ⟨_, _, rfl⟩
  obtain ⟨v, w', hok⟩ := hok
  obtain ⟨new, hnew, hspliced, -⟩ := relocate_splices (w := { program := forkedBehindFirst })
    forkedBehindFirst_reachable hok
  refine ⟨v, w', forkedBehindFirst_reachable, hok, ⟨new, hnew, hspliced⟩, ?_⟩
  have horder : (Worker.relocate { program := forkedBehindFirst } 0 {} overlap).2.program.order =
      [⟨0⟩, ⟨3⟩, ⟨4⟩, ⟨1⟩, ⟨2⟩] := by decide
  rw [hok] at horder
  exact horder

end CrossMesh
