import CrossMesh.Proofs.Program.Pruning
import CrossMesh.Proofs.Relocation.Effect

/-!
# Reachable programs

A program is reachable if it was built, from the empty program on, by any calls in any order: inputs, insertions, moves
of the insertion point, removals, changes of placements, streams and types, relocations with any table of groups, and
prunings.  A call may fail; what it leaves behind is the program that the next call starts from.  Every reachable
program is coherent (`Reachable.coherent`), so pruning it removes exactly what is wholly foreign
(`Reachable.prune_whollyForeign`).
-/

namespace CrossMesh

namespace Program

/-- A call that may change a program. -/
inductive Action
  | addInput (type : TensorType) (placement : Option Placement)
  | insert (d : Draft)
  | before (op : OpId)
  | after (op : OpId)
  | atEnd
  | remove (op : OpId)
  | setPlacement (op : OpId) (placement : OpPlacement)
  | setStream (op : OpId) (stream : StreamKind)
  | setType (v : ValueId) (type : TensorType)
  | relocate (groups : Groups) (rank : Rank) (config : Config) (m : Relocation)
  | prune (rank : Rank)

/-- The program that a call answers with, or the old one if the call fails. -/
def orElse (p : Program) : Except ProgramError Program → Program
  | .ok q => q
  | .error _ => p

/-- The program after a call. -/
def act (p : Program) : Action → Program
  | .addInput type placement => p.addInput type placement
  | .insert d => p.orElse ((p.insert d).map Prod.snd)
  | .before op => p.orElse (p.before op)
  | .after op => p.orElse (p.after op)
  | .atEnd => p.atEnd
  | .remove op => p.orElse ((p.remove op).map Prod.snd)
  | .setPlacement op placement => p.orElse (p.setPlacement op placement)
  | .setStream op stream => p.orElse (p.setStream op stream)
  | .setType v type => p.orElse (p.setType v type)
  | .relocate groups rank config m => (({ program := p, groups } : Worker).relocate rank config m).2.program
  | .prune rank => (({ program := p } : Worker).prune rank).2.program

/-- The program after several calls. -/
def run (p : Program) (actions : List Action) : Program := actions.foldl act p

def Reachable (p : Program) : Prop := ∃ actions, run {} actions = p

theorem run_append (p : Program) (actions more : List Action) : p.run (actions ++ more) = (p.run actions).run more :=
  List.foldl_append

theorem Reachable.run {p : Program} (h : p.Reachable) (actions : List Action) : (p.run actions).Reachable := by
  obtain ⟨before, rfl⟩ := h
  exact ⟨before ++ actions, run_append ..⟩

/-! ### What a call can do -/

theorem lt_of_position_eq_ok {p : Program} {op : OpId} {i : Nat} (h : p.position op = .ok i) : i < p.order.length := by
  obtain ⟨hlt, -⟩ := List.idxOf?_eq_some_iff.1 (position_eq_ok_iff.1 h)
  exact hlt

/-- A call adds an input, inserts operations, removes operations, or only changes things in their place. -/
theorem act_cases {p : Program} (hp : p.Coherent) (a : Action) :
    (∃ type placement, a = .addInput type placement) ∨ (∃ ds, (∀ d ∈ ds, p.Known d) ∧ p.act a = p.placeAll ds) ∨
      (∃ ops removed, p.removeAll ops = .ok (removed, p.act a)) ∨ p.Alike (p.act a) ∧ (p.act a).CursorInside := by
  -- What fails in a change in place leaves the program alone, and that is such a change too.
  have inPlace : ∀ r : Except ProgramError Program, (∀ q, r = .ok q → p.Alike q ∧ q.CursorInside) →
      p.Alike (p.orElse r) ∧ (p.orElse r).CursorInside := by
    intro r hr
    cases r with
    | error e => exact ⟨Alike.refl p, hp.cursorInside⟩
    | ok q => exact hr q rfl
  have moved : ∀ (op : OpId) (f : Nat → Nat), (∀ i, f i ≤ i + 1) → ∀ q,
      (p.position op).map (fun i => { p with cursor := some (f i) }) = .ok q → p.Alike q ∧ q.CursorInside := by
    intro op f hf q hq
    cases hi : p.position op with
    | error e => simp [hi, Except.map] at hq
    | ok i =>
      simp only [hi, Except.map, Except.ok.injEq] at hq
      subst hq
      refine ⟨Alike.moveCursor p _, fun c hc => ?_⟩
      obtain rfl := Option.some.inj hc
      exact Nat.le_trans (hf i) (lt_of_position_eq_ok hi)
  have changed : ∀ (op : OpId) (f : Operation → Operation),
      (∀ o, ((f o).kind, (f o).operands, (f o).results) = (o.kind, o.operands, o.results)) →
      ∀ q, p.setOp op f = .ok q → p.Alike q ∧ q.CursorInside := by
    intro op f hf q hq
    refine ⟨Alike.setOp hf hq, ?_⟩
    obtain ⟨o, -, rfl⟩ := setOp_eq_ok hq
    exact hp.cursorInside
  cases a with
  | addInput type placement => exact .inl ⟨type, placement, rfl⟩
  | insert d =>
    refine .inr (.inl ?_)
    cases hins : p.insert d with
    | error e => exact ⟨[], List.forall_mem_nil _, by simp only [act, hins]; rfl⟩
    | ok r =>
      obtain ⟨hd, -, hr⟩ := insert_eq_ok hins
      exact ⟨[d], List.forall_mem_singleton.2 hd, by simp only [act, hins]; exact hr⟩
  | before op => exact .inr (.inr (.inr (inPlace _ (moved op id fun i => Nat.le_succ i))))
  | after op => exact .inr (.inr (.inr (inPlace _ (moved op (· + 1) fun i => Nat.le_refl _))))
  | atEnd => exact .inr (.inr (.inr ⟨Alike.moveCursor p none, fun c hc => absurd hc (by simp [act, atEnd])⟩))
  | remove op =>
    refine .inr (.inr (.inl ?_))
    cases hrem : p.remove op with
    | error e => exact ⟨[], [], by simp only [act, hrem]; rfl⟩
    | ok r => exact ⟨[op], [(op, r.1)], by simp only [act, hrem, removeAll]; rfl⟩
  | setPlacement op placement =>
    exact .inr (.inr (.inr (inPlace _ (changed op (fun o => { o with placement := some placement }) fun o => rfl))))
  | setStream op stream =>
    exact .inr (.inr (.inr (inPlace _ (changed op (fun o => { o with stream := some stream }) fun o => rfl))))
  | setType v type =>
    refine .inr (.inr (.inr (inPlace _ fun q hq => ⟨Alike.setType hq, ?_⟩)))
    obtain ⟨x, -, rfl⟩ := setType_eq_ok hq
    exact hp.cursorInside
  | relocate groups rank config m =>
    exact .inr (.inl (Worker.exists_relocate_program { program := p, groups } rank config m))
  | prune rank =>
    obtain ⟨removed, q, hprune, -⟩ := hp.exists_prune rank
    obtain ⟨journal, heq⟩ := Worker.prune_eq (w := { program := p }) hprune
    refine .inr (.inr (.inl ⟨removed.map Prod.fst, removed, ?_⟩))
    simp only [act, heq]
    exact hp.removeAll_of_prune hprune

/-- Every call keeps a program coherent. -/
theorem Coherent.act {p : Program} (hp : p.Coherent) (a : Action) : (p.act a).Coherent := by
  rcases act_cases hp a with ⟨type, placement, rfl⟩ | ⟨ds, hds, heq⟩ | ⟨ops, removed, heq⟩ | ⟨halike, hcursor⟩
  · exact hp.addInput type placement
  · rw [heq]
    exact hp.placeAll (accepts_of_known hds)
  · exact (Cleared.of_removeAll hp heq).coherent
  · exact hp.alike halike hcursor

theorem Coherent.run {p : Program} (hp : p.Coherent) (actions : List Action) : (p.run actions).Coherent := by
  induction actions generalizing p with
  | nil => exact hp
  | cons a actions ih => exact ih (hp.act a)

theorem Reachable.coherent {p : Program} (h : p.Reachable) : p.Coherent := by
  obtain ⟨actions, rfl⟩ := h
  exact coherent_empty.run actions

/-! ### Pruning -/

theorem Cleared.removed_perm {p q : Program} {removed : List (OpId × Operation)} (hp : p.Coherent)
    (h : p.Cleared removed q) : removed.Perm (p.live.filter fun u => u.1 ∈ removed.map Prod.fst) := by
  refine (List.perm_ext_iff_of_nodup (List.Nodup.of_map Prod.fst h.nodup) (hp.nodup_live.filter _)).2 ?_
  rintro ⟨op, o⟩
  rw [List.mem_filter, decide_eq_true_eq]
  constructor
  · intro hu
    exact ⟨h.mem_live _ hu, List.mem_map_of_mem hu⟩
  · rintro ⟨hlive, hop⟩
    obtain ⟨⟨op', o'⟩, hu, rfl⟩ := List.mem_map.1 hop
    rw [hp.live_unique hlive (h.mem_live _ hu)]
    exact hu

open Classical in
/-- Pruning for a rank never fails.  It removes exactly the operations that are foreign to the rank and whose direct
and indirect users all are, answers with their number, and leaves all others as they were and in their order.  Pruning
again removes nothing. -/
theorem Reachable.prune_whollyForeign {w : Worker} (h : w.program.Reachable) (rank : Rank) : ∃ n w',
    w.prune rank = (.ok n, w') ∧
      n = (w.program.live.filter fun u => w.program.WhollyForeign rank u.1).length ∧
      w'.program.live = w.program.live.filter (fun u => ¬w.program.WhollyForeign rank u.1) ∧
      w'.program.values = w.program.values ∧
      ∃ w'', w'.prune rank = (.ok 0, w'') ∧ w''.program = w'.program := by
  obtain ⟨removed, w', heq, -, hcleared, hmem, hlast⟩ := Worker.exists_prune h.coherent rank
  obtain ⟨journal, heq'⟩ := Worker.prune_eq (prune_of_nil hlast)
  refine ⟨removed.length, w', heq, ?_, ?_, hcleared.values, _, heq', rfl⟩
  · rw [(hcleared.removed_perm h.coherent).length_eq]
    refine congrArg List.length (List.filter_congr fun u _ => ?_)
    rw [decide_eq_decide, hmem]
  · rw [hcleared.live]
    refine List.filter_congr fun u _ => ?_
    rw [decide_eq_decide, hmem]

end Program

/-- The mesh with one axis that lays these ranks out in a row. -/
def Mesh.row (ids : List Rank) (h : ids.Nodup) : Mesh where
  ids := ids
  shape := [ids.length]
  axes := ["x"]
  nodup_ids := h
  length_ids := (Nat.one_mul _).symm
  length_axes := rfl

namespace Program

/-- An input, an operation of rank 1 that uses it, and two operations of ranks 1 and 0 that use what it makes. -/
def forked : Program :=
  let on (rank : Rank) : OpPlacement := { mesh := Mesh.row [rank] (by simp), operands := [], results := [], chunk := 0 }
  run {} [.addInput ⟨[2], .f32⟩ none,
    .insert { kind := .compute "a", operands := [⟨0⟩], types := [⟨[2], .f32⟩], placement := some (on 1) },
    .insert { kind := .compute "b", operands := [⟨1⟩], types := [], placement := some (on 1) },
    .insert { kind := .compute "c", operands := [⟨1⟩], types := [], placement := some (on 0) }]

theorem forked_reachable : forked.Reachable := ⟨_, rfl⟩

theorem forked_available : forked.Available ⟨0⟩ :=
  ⟨⟨⟨[2], .f32⟩, .input none⟩, rfl, fun op i h => by cases h⟩

open Classical in
theorem prune_whollyForeign_forked : forked.Reachable ∧ ∃ n w', Worker.prune { program := forked } 0 = (.ok n, w') ∧
    n = (forked.live.filter fun u => forked.WhollyForeign 0 u.1).length ∧
    w'.program.live = forked.live.filter (fun u => ¬forked.WhollyForeign 0 u.1) ∧
    w'.program.values = forked.values ∧
    ∃ w'', w'.prune 0 = (.ok 0, w'') ∧ w''.program = w'.program :=
  ⟨forked_reachable, Reachable.prune_whollyForeign (w := { program := forked }) forked_reachable 0⟩

end Program

end CrossMesh
