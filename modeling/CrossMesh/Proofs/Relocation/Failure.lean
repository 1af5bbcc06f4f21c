import CrossMesh.Proofs.Program.Operands
import CrossMesh.Proofs.Transfer.Roles

/-!
# When a relocation fails

`Relocation.Failure` lists the reasons for which a relocation of a value fails, by what happened to the program
before: the value was never made, or the operation that made it was removed.  A relocation answers with an error
exactly for one of these reasons, succeeds where there is none, and leaves the program alone when it fails
(`relocate_eq_error_iff`).  This is so because every lookup that can fail comes before the first insertion.
-/

namespace CrossMesh

namespace Program

/-- The operation was inserted by one of these calls, and they left nothing of it. -/
def RemovedBy (actions : List Action) (op : OpId) : Prop :=
  op ∈ issuedOps {} actions ∧ op ∉ (run {} actions).order

theorem mem_issuedValues_iff {actions : List Action} {v : ValueId} :
    v ∈ issuedValues {} actions ↔ v.index < (run {} actions).values.size := by
  have hindex : v.index ∈ (issuedValues {} actions).map ValueId.index ↔ v.index < (run {} actions).values.size := by
    rw [coherent_empty.map_index_issuedValues, List.mem_range'_1]
    simp
  rw [← hindex, List.mem_map]
  constructor
  · exact fun hv => ⟨v, hv, rfl⟩
  · rintro ⟨u, hu, heq⟩
    obtain rfl : u = v := by cases u; cases v; exact congrArg ValueId.mk heq
    exact hu

theorem removedBy_iff {actions : List Action} {op : OpId} (hop : op.index < (run {} actions).ops.size) :
    RemovedBy actions op ↔ (run {} actions).op? op = none := by
  have horder := (coherent_empty.run actions).mem_order_iff op
  unfold RemovedBy
  rw [horder, and_iff_right (mem_issuedOps hop), Option.eq_none_iff_forall_ne_some, not_exists]

/-- No chunk is found for a value that was never made, and none for a value whose operation is not left. -/
theorem definingChunk_eq_error_iff {p : Program} {v : ValueId} {e : ProgramError} :
    p.definingChunk v = .error e ↔ p.Missing v e := by
  constructor
  · intro h
    unfold definingChunk definingOp value at h
    cases hv : p.value? v with
    | none =>
      simp only [hv, Except.map, Except.error.injEq] at h
      exact h ▸ .unmade (by simpa [value?] using hv)
    | some x =>
      cases ho : x.origin with
      | input placement => simp [hv, ho, Except.map] at h
      | result op i =>
        cases hop : p.op? op with
        | none =>
          simp only [hv, ho, Program.op, hop, Except.map, Except.error.injEq] at h
          exact h ▸ .removed (definingOp_eq_some_iff.2 ⟨x, i, hv, ho⟩) hop
        | some o => simp [hv, ho, Program.op, hop, Except.map] at h
  · intro h
    cases h with
    | unmade hvalue =>
      have hv : p.value? v = none := by simpa [value?] using hvalue
      simp [definingChunk, definingOp, value, hv, Except.map]
    | removed hdefiner hop => simp [definingChunk, hdefiner, Program.op, hop, Except.map]

theorem definingOp_lt {p : Program} (hp : p.Coherent) {v : ValueId} {op : OpId}
    (h : p.definingOp v = .ok (some op)) : op.index < p.ops.size := by
  obtain ⟨x, i, hx, horigin⟩ := definingOp_eq_some_iff.1 h
  exact hp.origin_lt v x op i hx horigin

end Program

/-- Why a relocation by `rank` fails on the program that the calls `actions` built. -/
inductive Relocation.Failure (m : Relocation) (actions : List Program.Action) (rank : Rank) : RelocationError → Prop
  | clash {r : Rank} (hclash : clash? m.pairs = some r) : Failure m actions rank (.clash r)
  /-- The rank should send a value that was never made. -/
  | unknownSent {peer : Rank} (hclash : clash? m.pairs = none) (hrole : roleOf m.pairs rank = .sender peer)
      (hvalue : m.value ∉ Program.issuedValues {} actions) :
      Failure m actions rank (.program (.unknownValue m.value))
  /-- The rank should send a value whose operation was removed. -/
  | removedSent {peer : Rank} {op : OpId} (hclash : clash? m.pairs = none) (hrole : roleOf m.pairs rank = .sender peer)
      (hdefiner : (Program.run {} actions).definingOp m.value = .ok (some op)) (hop : Program.RemovedBy actions op) :
      Failure m actions rank (.program (.unknownOp op))
  /-- The rank should receive a value of unknown size. -/
  | dynamicReceived {peer : Rank} (hclash : clash? m.pairs = none) (hrole : roleOf m.pairs rank = .receiver peer)
      (htype : dynamicSize ∈ m.type.shape) : Failure m actions rank (.dynamicType m.value m.type)
  /-- The rank stands in a mesh but in no pair. -/
  | unpaired (hclash : clash? m.pairs = none) (hpairs : ∀ a ∈ m.pairs, a.1 ≠ rank ∧ a.2 ≠ rank)
      (hrank : rank ∈ m.src.mesh ∨ rank ∈ m.dst.mesh) : Failure m actions rank (.unpaired rank)
  /-- The rank stands in no mesh and should stand in for a value that was never made. -/
  | unknownKept (hclash : clash? m.pairs = none) (hpairs : ∀ a ∈ m.pairs, a.1 ≠ rank ∧ a.2 ≠ rank)
      (hrank : ¬(rank ∈ m.src.mesh ∨ rank ∈ m.dst.mesh)) (hvalue : m.value ∉ Program.issuedValues {} actions) :
      Failure m actions rank (.program (.unknownValue m.value))

namespace Worker

variable {w : Worker} {rank : Rank} {config : Config} {m : Relocation}

/-- What keeps a role from being performed is what its part answers with. -/
theorem perform_of_refusal {role : Role} {e : RelocationError} (h : m.Refusal w.program rank role e) :
    (w.perform rank config m role).1 = .error e := by
  cases h with
  | sender hchunk => simp [perform, send, hchunk]
  | receiver htype => simp [perform, receive, htype]
  | leftOver hrank => simp [perform, hrank]
  | bystander hsrc hdst hvalue => simp [perform, hsrc, hdst, standIn_of_unknown hvalue]

/-- A relocation fails exactly if a rank stands in two pairs or the role cannot be performed. -/
theorem relocate_eq_error_iff_refusal {e : RelocationError} :
    (w.relocate rank config m).1 = .error e ↔
      (∃ r, clash? m.pairs = some r ∧ e = .clash r) ∨
        clash? m.pairs = none ∧ m.Refusal w.program rank (roleOf m.pairs rank) e := by
  constructor
  · intro h
    exact refusal_of_relocate (Prod.ext h rfl)
  · obtain ⟨journal, hprep⟩ := prepared_eq w rank config m
    rintro (⟨r, hclash, rfl⟩ | ⟨hclash, hrefusal⟩)
    · simp only [relocate, hclash]
    · simp only [relocate, hclash]
      exact perform_of_refusal (by rw [hprep]; exact hrefusal)

end Worker

namespace Relocation

variable {m : Relocation} {actions : List Program.Action} {rank : Rank} {e : RelocationError}

theorem Failure.refusal (h : m.Failure actions rank e) :
    (∃ r, clash? m.pairs = some r ∧ e = .clash r) ∨
      clash? m.pairs = none ∧ m.Refusal (Program.run {} actions) rank (roleOf m.pairs rank) e := by
  cases h with
  | clash hclash => exact .inl ⟨_, hclash, rfl⟩
  | unknownSent hclash hrole hvalue =>
    rw [Program.mem_issuedValues_iff] at hvalue
    exact .inr ⟨hclash, hrole ▸ .sender (Program.definingChunk_eq_error_iff.2 (.unmade hvalue))⟩
  | removedSent hclash hrole hdefiner hop =>
    have hlt := Program.definingOp_lt (Program.coherent_empty.run actions) hdefiner
    have hnone := (Program.removedBy_iff hlt).1 hop
    exact .inr ⟨hclash, hrole ▸ .sender (Program.definingChunk_eq_error_iff.2 (.removed hdefiner hnone))⟩
  | dynamicReceived hclash hrole htype => exact .inr ⟨hclash, hrole ▸ .receiver htype⟩
  | unpaired hclash hpairs hrank => exact .inr ⟨hclash, roleOf_eq_bystander_iff.2 hpairs ▸ .leftOver hrank⟩
  | unknownKept hclash hpairs hrank hvalue =>
    rw [Program.mem_issuedValues_iff] at hvalue
    obtain ⟨hsrc, hdst⟩ := not_or.1 hrank
    exact .inr ⟨hclash, roleOf_eq_bystander_iff.2 hpairs ▸ .bystander hsrc hdst hvalue⟩

theorem Refusal.failure (hclash : clash? m.pairs = none)
    (h : m.Refusal (Program.run {} actions) rank (roleOf m.pairs rank) e) : m.Failure actions rank e := by
  generalize hrole : roleOf m.pairs rank = role at h
  cases h with
  | sender hchunk =>
    cases Program.definingChunk_eq_error_iff.1 hchunk with
    | unmade hvalue => exact .unknownSent hclash hrole (fun hmem => hvalue (Program.mem_issuedValues_iff.1 hmem))
    | removed hdefiner hnone =>
      have hlt := Program.definingOp_lt (Program.coherent_empty.run actions) hdefiner
      exact .removedSent hclash hrole hdefiner ((Program.removedBy_iff hlt).2 hnone)
  | receiver htype => exact .dynamicReceived hclash hrole htype
  | leftOver hrank => exact .unpaired hclash (roleOf_eq_bystander_iff.1 hrole) hrank
  | bystander hsrc hdst hvalue =>
    exact .unknownKept hclash (roleOf_eq_bystander_iff.1 hrole) (not_or.2 ⟨hsrc, hdst⟩)
      (fun hmem => hvalue (Program.mem_issuedValues_iff.1 hmem))

end Relocation

/-- A relocation on a program that was built by any calls, with any groups, answers with an error exactly for a reason
that `Relocation.Failure` lists, and with a value if there is none.  A relocation that fails leaves the program as it
was. -/
theorem relocate_eq_error_iff (actions : List Program.Action) (groups : Groups) (journal : List Event) (rank : Rank)
    (config : Config) (m : Relocation) :
    (∀ e, (Worker.relocate ⟨Program.run {} actions, groups, journal⟩ rank config m).1 = .error e ↔
        m.Failure actions rank e) ∧
      ((∃ v, (Worker.relocate ⟨Program.run {} actions, groups, journal⟩ rank config m).1 = .ok v) ↔
        ∀ e, ¬m.Failure actions rank e) ∧
      ∀ e, (Worker.relocate ⟨Program.run {} actions, groups, journal⟩ rank config m).1 = .error e →
        (Worker.relocate ⟨Program.run {} actions, groups, journal⟩ rank config m).2.program =
          Program.run {} actions := by
  have hiff : ∀ e, (Worker.relocate ⟨Program.run {} actions, groups, journal⟩ rank config m).1 = .error e ↔
      m.Failure actions rank e := by
    intro e
    rw [Worker.relocate_eq_error_iff_refusal]
    constructor
    · rintro (⟨r, hclash, rfl⟩ | ⟨hclash, hrefusal⟩)
      · exact .clash hclash
      · exact hrefusal.failure hclash
    · exact Relocation.Failure.refusal
  refine ⟨hiff, ?_, fun e he => (Worker.relocate_eq_error (Prod.ext he rfl)).1⟩
  cases hanswer : (Worker.relocate ⟨Program.run {} actions, groups, journal⟩ rank config m).1 with
  | ok v => simp [← hiff, hanswer]
  | error e => simp [← hiff, hanswer]

end CrossMesh
