import CrossMesh.Proofs.Program.Tables

/-!
# What calls answer

A call answers with a value, an operation, a number or nothing, or with an error.  `Program.trace` lists, call by call,
the answers of several calls and the programs they leave behind, which is all that whoever makes the calls gets to see.
-/

namespace CrossMesh

namespace Program

/-- What a call that succeeds answers with. -/
inductive Answer
  | done
  | value (v : ValueId)
  | operation (op : OpId)
  | count (n : Nat)
  deriving DecidableEq

/-- The answer `f` to what succeeds; what fails is an error of the program. -/
def reply {α : Type} (f : α → Answer) (r : Except ProgramError α) : Except RelocationError Answer :=
  (r.map f).mapError .program

/-- The answer of a call. -/
def answer (p : Program) : Action → Except RelocationError Answer
  | .addInput _ _ => .ok (.value p.nextValue)
  | .insert d => reply (fun r => .operation r.1) (p.insert d)
  | .before op => reply (fun _ => .done) (p.before op)
  | .after op => reply (fun _ => .done) (p.after op)
  | .atEnd => .ok .done
  | .remove op => reply (fun _ => .done) (p.remove op)
  | .setPlacement op placement => reply (fun _ => .done) (p.setPlacement op placement)
  | .setStream op stream => reply (fun _ => .done) (p.setStream op stream)
  | .setType v type => reply (fun _ => .done) (p.setType v type)
  | .relocate groups rank config m => (({ program := p, groups } : Worker).relocate rank config m).1.map .value
  | .prune rank => reply .count (({ program := p } : Worker).prune rank).1

/-- The answer of a call and the program after it. -/
structure Report where
  answer : Except RelocationError Answer
  program : Program

/-- The reports of several calls, one after the other. -/
def trace (p : Program) : List Action → List Report
  | [] => []
  | a :: actions => ⟨p.answer a, p.act a⟩ :: (p.act a).trace actions

theorem reply_eq_error_iff {α : Type} {f : α → Answer} {r : Except ProgramError α} :
    (∃ e, reply f r = .error e) ↔ ∃ e, r = .error e := by
  cases r <;> simp [reply, Except.map, Except.mapError]

private theorem map_eq_error_iff {r : Except RelocationError ValueId} :
    (∃ e, r.map Answer.value = .error e) ↔ ∃ e, r = .error e := by
  cases r <;> simp [Except.map]

theorem fails_iff {p : Program} {a : Action} : p.Fails a ↔ ∃ e, p.answer a = .error e := by
  cases a with
  | addInput | atEnd => simp [Fails, answer]
  | insert | before | after | remove | setPlacement | setStream | setType => exact reply_eq_error_iff.symm
  | relocate groups rank config m => exact map_eq_error_iff.symm
  | prune rank => exact reply_eq_error_iff.symm

theorem not_fails_of_answer {p : Program} {a : Action} {x : Answer} (h : p.answer a = .ok x) : ¬p.Fails a := by
  intro hfails
  obtain ⟨e, he⟩ := fails_iff.1 hfails
  exact absurd (h.symm.trans he) (by simp)

end Program

end CrossMesh
