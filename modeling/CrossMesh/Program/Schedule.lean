import CrossMesh.Program.Basic

/-!
# Chunks downstream of a value

A value is scheduled with the pipeline chunk that first uses it.  `Program.chunkDownstream` goes from the users of a
value to the users of their results, level by level, through operations that no chunk has claimed, and answers with
the first chunk it meets.
-/

namespace CrossMesh

/-- The operations with `value` as an operand. -/
def consumersIn (pending : List Operation) (value : ValueId) : List Operation :=
  pending.filter fun o => o.consumes value

/-- The operations without `value` as an operand. -/
def othersIn (pending : List Operation) (value : ValueId) : List Operation :=
  pending.filter fun o => !o.consumes value

/-- The first chunk met from the values of `queue` through the operations of `pending`, which are those not visited
yet, in execution order. -/
def chunkFrom (pending : List Operation) : List ValueId → Int
  | [] => unscheduled
  | v :: queue =>
    match (consumersIn pending v).findSome? Operation.scheduled? with
    | some chunk => chunk
    | none => chunkFrom (othersIn pending v) (queue ++ (consumersIn pending v).flatMap Operation.results)
termination_by queue => (pending.length, queue.length)
decreasing_by
  by_cases h : ∃ o ∈ pending, o.consumes v
  · obtain ⟨o, ho, hv⟩ := h
    exact Prod.Lex.left _ _ (List.length_filter_lt_length_iff_exists.2 ⟨o, ho, by simp [hv]⟩)
  · have hnone : ∀ o ∈ pending, ¬o.consumes v := fun o ho hv => h ⟨o, ho, hv⟩
    have hothers : othersIn pending v = pending := List.filter_eq_self.2 fun o ho => by simp [hnone o ho]
    have hconsumers : consumersIn pending v = [] := List.filter_eq_nil_iff.2 hnone
    rw [hothers, hconsumers]
    exact Prod.Lex.right _ (by simp)

namespace Program

/-- The first chunk met going downstream from a value, `unscheduled` if there is none. -/
def chunkDownstream (p : Program) (value : ValueId) : Int :=
  chunkFrom (p.live.map Prod.snd) [value]

/-- The chunk written on the operation that makes a value, `unscheduled` for an input. -/
def definingChunk (p : Program) (value : ValueId) : Except ProgramError Int :=
  match p.definingOp value with
  | .error e => .error e
  | .ok none => .ok unscheduled
  | .ok (some op) => (p.op op).map Operation.chunk

/-- Whether the placement of a value is known and lies on `mesh`. -/
def LivesOn (p : Program) (value : ValueId) (mesh : Mesh) : Prop :=
  match p.valuePlacement value with
  | .ok (some placement) => placement.mesh = mesh
  | _ => False

instance (p : Program) (value : ValueId) (mesh : Mesh) : Decidable (p.LivesOn value mesh) := by
  unfold LivesOn
  split <;> infer_instance

/-- The users of a value whose first result lives on `mesh`, each with that result, in execution order. -/
def consumersOn (p : Program) (value : ValueId) (mesh : Mesh) : List (Operation × ValueId) :=
  (p.users value).filterMap fun u =>
    match u.2.results.head? with
    | some r => if p.LivesOn r mesh then some (u.2, r) else none
    | none => none

/-- The chunk with which a value is received on `mesh`: that of its last consumer there, or else the first one
downstream of what this consumer makes. -/
def receivingChunk (p : Program) (value : ValueId) (mesh : Mesh) : Int :=
  match (p.consumersOn value mesh).getLast? with
  | none => unscheduled
  | some (o, r) => o.scheduled?.getD (p.chunkDownstream r)

end Program

end CrossMesh
