import CrossMesh.Proofs.Relocation.Failure
import CrossMesh.Proofs.Relocation.Matching

/-!
# The two ranks of a pair

The ranks of a pair relocate a value each on its own and do not tell each other whether they succeed.  The sender looks
at the value only and refuses one that is missing; the receiver looks at the type only and refuses one of unknown size.
If neither refuses, the send of the one and the receive of the other are partners; if one of them does, the other has
none (`relocate_partners`, `partners_disagree_overlap`).
-/

namespace CrossMesh

namespace Worker

/-- The worker answers a relocation with an error. -/
def Refuses (w : Worker) (rank : Rank) (config : Config) (m : Relocation) : Prop :=
  ∃ e, (w.relocate rank config m).1 = .error e

/-- The operations that a relocation between the given placements adds to the program of a rank. -/
def adding (w : Worker) (rank : Rank) (config : Config) (m : Relocation) : List (OpId × Operation) :=
  (w.relocate rank config m).2.program.liveBetween w.program.ops.size (w.relocate rank config m).2.program.ops.size

/-- The relocation succeeds and adds the sends and receives of these edges. -/
structure Exchanges (w : Worker) (rank : Rank) (config : Config) (m : Relocation)
    (sends receives : List (Option Rank × Option Rank)) : Prop where
  exists_ok : ∃ v, (w.relocate rank config m).1 = .ok v
  sends_eq : sendEdges (w.relocate rank config m).2.groups rank (w.adding rank config m) = sends
  receives_eq : receiveEdges (w.relocate rank config m).2.groups rank (w.adding rank config m) = receives

/-- The relocation answers with this error and leaves the program as it was. -/
structure RefusesWith (w : Worker) (rank : Rank) (config : Config) (m : Relocation) (e : RelocationError) : Prop where
  error_eq : (w.relocate rank config m).1 = .error e
  program_eq : (w.relocate rank config m).2.program = w.program

variable {w : Worker} {m : Relocation}

theorem RefusesWith.refuses {rank : Rank} {config : Config} {e : RelocationError}
    (h : w.RefusesWith rank config m e) : w.Refuses rank config m :=
  ⟨e, h.error_eq⟩

theorem Exchanges.not_refuses {rank : Rank} {config : Config} {sends receives : List (Option Rank × Option Rank)}
    (h : w.Exchanges rank config m sends receives) : ¬w.Refuses rank config m := by
  rintro ⟨e, he⟩
  obtain ⟨v, hv⟩ := h.exists_ok
  exact absurd (hv.symm.trans he) (by simp)

theorem refusesWith_of_refusal {rank : Rank} (config : Config) {e : RelocationError} (hclash : clash? m.pairs = none)
    (h : m.Refusal w.program rank (roleOf m.pairs rank) e) : w.RefusesWith rank config m e := by
  have herror : (w.relocate rank config m).1 = .error e := relocate_eq_error_iff_refusal.2 (.inr ⟨hclash, h⟩)
  exact ⟨herror, (relocate_eq_error (Prod.ext herror rfl)).1⟩

/-- A rank that has no reason to refuse its role exchanges what the role asks for. -/
theorem exchanges_roleOf (rank : Rank) (config : Config) (hprogram : w.program.Coherent)
    (hgroups : w.groups.Numbered) (hclash : clash? m.pairs = none)
    (hrole : ∀ e, ¬m.Refusal w.program rank (roleOf m.pairs rank) e) :
    w.Exchanges rank config m ((roleOf m.pairs rank).sends rank) ((roleOf m.pairs rank).receives rank) := by
  obtain ⟨v, w', hok⟩ := exists_relocate_of_not_refusal w rank config hclash hrole
  obtain ⟨hsends, hreceives⟩ := edges_of_relocate_eq_ok hok hprogram hgroups
  constructor
  case exists_ok => exact ⟨v, congrArg Prod.fst hok⟩
  case sends_eq => rw [adding, hok]; exact hsends
  case receives_eq => rw [adding, hok]; exact hreceives

variable {rank peer : Rank}

/-- A sender with a value that can be used sends it. -/
theorem exchanges_sender (config : Config) (hprogram : w.program.Coherent) (hgroups : w.groups.Numbered)
    (hclash : clash? m.pairs = none) (hrole : roleOf m.pairs rank = .sender peer)
    (hvalue : w.program.Available m.value) : w.Exchanges rank config m [(some rank, some peer)] [] := by
  have hwilling : ∀ e, ¬m.Refusal w.program rank (roleOf m.pairs rank) e := by
    rw [hrole]
    rintro _ (hchunk | _)
    exact Program.not_available_iff.2 ⟨_, Program.definingChunk_eq_error_iff.1 hchunk⟩ hvalue
  have h := exchanges_roleOf rank config hprogram hgroups hclash hwilling
  rw [hrole] at h
  exact h

theorem exists_refusesWith_sender (config : Config) (hclash : clash? m.pairs = none)
    (hrole : roleOf m.pairs rank = .sender peer) (hvalue : ¬w.program.Available m.value) :
    ∃ e, w.program.Missing m.value e ∧ w.RefusesWith rank config m (.program e) := by
  obtain ⟨e, he⟩ := Program.not_available_iff.1 hvalue
  refine ⟨e, he, refusesWith_of_refusal config hclash ?_⟩
  rw [hrole]
  exact .sender (Program.definingChunk_eq_error_iff.2 he)

/-- A receiver of a type of known size receives the value, whatever its program knows of it. -/
theorem exchanges_receiver (config : Config) (hprogram : w.program.Coherent) (hgroups : w.groups.Numbered)
    (hclash : clash? m.pairs = none) (hrole : roleOf m.pairs rank = .receiver peer) (htype : ¬m.type.Dynamic) :
    w.Exchanges rank config m [] [(some peer, some rank)] := by
  have hwilling : ∀ e, ¬m.Refusal w.program rank (roleOf m.pairs rank) e := by
    rw [hrole]
    exact Relocation.not_refusal_receiver htype
  have h := exchanges_roleOf rank config hprogram hgroups hclash hwilling
  rw [hrole] at h
  exact h

theorem refusesWith_receiver (config : Config) (hclash : clash? m.pairs = none)
    (hrole : roleOf m.pairs rank = .receiver peer) (htype : m.type.Dynamic) :
    w.RefusesWith rank config m (.dynamicType m.value m.type) := by
  refine refusesWith_of_refusal config hclash ?_
  rw [hrole]
  exact .receiver htype

end Worker

/-- The two ranks of a pair relocate a value, each on its own copy of a program and with groups of its own.  If the value
can be used the sender sends it to the receiver, and otherwise it refuses it with what the value is missing.  If the
type is static the receiver receives from the sender, and otherwise it refuses the type.  A rank that refuses leaves
its program alone.  So the two fail or succeed together exactly if the value can be used and the type is static, or
neither. -/
theorem relocate_partners {p : Program} (hp : p.Reachable) {m : Relocation} (hclash : clash? m.pairs = none)
    {a b : Rank} (hpair : (a, b) ∈ m.pairs) (hne : a ≠ b) (config : Config) (sender receiver : Worker)
    (hsender : sender.program = p ∧ sender.groups.Reachable)
    (hreceiver : receiver.program = p ∧ receiver.groups.Reachable) :
    (p.Available m.value → sender.Exchanges a config m [(some a, some b)] []) ∧
      (¬p.Available m.value → ∃ e, p.Missing m.value e ∧ sender.RefusesWith a config m (.program e)) ∧
      (¬m.type.Dynamic → receiver.Exchanges b config m [] [(some a, some b)]) ∧
      (m.type.Dynamic → receiver.RefusesWith b config m (.dynamicType m.value m.type)) ∧
      ((sender.Refuses a config m ↔ receiver.Refuses b config m) ↔ (p.Available m.value ↔ ¬m.type.Dynamic)) := by
  have hpairs := clash?_eq_none_iff.1 hclash
  have ha : roleOf m.pairs a = .sender b := (roleOf_eq_sender_iff hpairs).2 ⟨hpair, Ne.symm hne⟩
  have hb : roleOf m.pairs b = .receiver a := (roleOf_eq_receiver_iff hpairs).2 ⟨hpair, hne⟩
  obtain ⟨rfl, hsenderGroups⟩ := hsender
  obtain ⟨hprogram, hreceiverGroups⟩ := hreceiver
  have hcoherent : receiver.program.Coherent := hprogram ▸ hp.coherent
  have hsends : sender.program.Available m.value → sender.Exchanges a config m [(some a, some b)] [] :=
    Worker.exchanges_sender config hp.coherent hsenderGroups.numbered hclash ha
  have hmissing : ¬sender.program.Available m.value →
      ∃ e, sender.program.Missing m.value e ∧ sender.RefusesWith a config m (.program e) :=
    Worker.exists_refusesWith_sender config hclash ha
  have hreceives : ¬m.type.Dynamic → receiver.Exchanges b config m [] [(some a, some b)] :=
    Worker.exchanges_receiver config hcoherent hreceiverGroups.numbered hclash hb
  have hrefuses : m.type.Dynamic → receiver.RefusesWith b config m (.dynamicType m.value m.type) :=
    Worker.refusesWith_receiver config hclash hb
  have hsenderRefuses : sender.Refuses a config m ↔ ¬sender.program.Available m.value := by
    refine ⟨fun h hvalue => (hsends hvalue).not_refuses h, fun hvalue => ?_⟩
    obtain ⟨e, -, he⟩ := hmissing hvalue
    exact he.refuses
  have hreceiverRefuses : receiver.Refuses b config m ↔ m.type.Dynamic :=
    ⟨fun h => by_contra fun htype => (hreceives htype).not_refuses h, fun htype => (hrefuses htype).refuses⟩
  refine ⟨hsends, hmissing, hreceives, hrefuses, ?_⟩
  rw [hsenderRefuses, hreceiverRefuses, not_iff_comm]
  exact iff_comm

theorem relocate_partners_overlap :
    (0, 2) ∈ overlap.pairs ∧ clash? overlap.pairs = none ∧
      Worker.Exchanges { program := Program.forked } 0 {} overlap [(some 0, some 2)] [] ∧
      Worker.Exchanges { program := Program.forked } 2 {} overlap [] [(some 0, some 2)] := by
  have hpair : (0, 2) ∈ overlap.pairs := by decide
  have h := relocate_partners Program.forked_reachable (m := overlap) overlap_relocatable.2.2.2 hpair (by decide) {}
    { program := Program.forked } { program := Program.forked } ⟨rfl, [], rfl⟩ ⟨rfl, [], rfl⟩
  exact ⟨hpair, overlap_relocatable.2.2.2, h.1 Program.forked_available, h.2.2.1 (by decide)⟩

/-- The relocation of `overlap` to a type of unknown size. -/
def unsizedOverlap : Relocation := { overlap with type := ⟨[dynamicSize], .f32⟩ }

/-- An operation made a value and was removed. -/
def Program.orphaned : Program :=
  Program.run {} [.addInput ⟨[4], .f32⟩ none,
    .insert { kind := .compute "a", operands := [⟨0⟩], types := [⟨[4], .f32⟩] }, .remove ⟨0⟩]

/-- The relocation of `overlap` for the value that is left of `Program.orphaned`. -/
def orphanedOverlap : Relocation := { overlap with value := ⟨1⟩ }

/-- A type of unknown size is refused by the receiver only, and a value without its operation by the sender only. -/
theorem partners_disagree_overlap :
    (0, 2) ∈ overlap.pairs ∧ clash? overlap.pairs = none ∧
      (Program.forked.Reachable ∧
        ¬(Worker.Refuses { program := Program.forked } 0 {} unsizedOverlap ↔
          Worker.Refuses { program := Program.forked } 2 {} unsizedOverlap)) ∧
      (Program.orphaned.Reachable ∧
        ¬(Worker.Refuses { program := Program.orphaned } 0 {} orphanedOverlap ↔
          Worker.Refuses { program := Program.orphaned } 2 {} orphanedOverlap)) := by
  refine ⟨by decide, by decide, ⟨Program.forked_reachable, fun h => ?_⟩, ⟨_, rfl⟩, fun h => ?_⟩
  · obtain ⟨e, he⟩ := h.2 ⟨.dynamicType ⟨0⟩ ⟨[dynamicSize], .f32⟩, rfl⟩
    have hok : (Worker.relocate { program := Program.forked } 0 {} unsizedOverlap).1 = .ok ⟨2⟩ := rfl
    exact absurd (hok.symm.trans he) (by simp)
  · obtain ⟨e, he⟩ := h.1 ⟨.program (.unknownOp ⟨0⟩), rfl⟩
    have hok : (Worker.relocate { program := Program.orphaned } 2 {} orphanedOverlap).1 = .ok ⟨2⟩ := rfl
    exact absurd (hok.symm.trans he) (by simp)

end CrossMesh
