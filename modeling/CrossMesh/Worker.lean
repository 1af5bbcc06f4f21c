import CrossMesh.Journal
import CrossMesh.Program.Prune

/-!
# Workers

A worker holds its copy of the program, its table of groups and the journal of what it did.  The operations here are
those of programs and groups that leave a line in the journal.
-/

namespace CrossMesh

structure Worker where
  program : Program := {}
  groups : Groups := {}
  journal : List Event := []
  deriving DecidableEq

namespace Worker

def note (w : Worker) (e : Event) : Worker := { w with journal := w.journal ++ [e] }

/-- Inserts an operation into the program. -/
def insert (w : Worker) (d : Program.Draft) : Except ProgramError OpId × Worker :=
  match w.program.insert d with
  | .error e => (.error e, w)
  | .ok (op, p) => (.ok op, { w with program := p }.note (.inserted op d.kind.name))

/-- Inserts an operation and makes changes to it. -/
def build (w : Worker) (d : Program.Draft) (changes : OpId → List (Program → Except ProgramError Program)) :
    Except ProgramError OpId × Worker :=
  match w.insert d with
  | (.error e, w) => (.error e, w)
  | (.ok op, w) =>
    match w.program.changeAll (changes op) with
    | (.error e, p) => (.error e, { w with program := p })
    | (.ok (), p) => (.ok op, { w with program := p })

/-- Inserts an operation with a result, makes changes to it and answers with the result. -/
def buildResult (w : Worker) (d : Program.Draft) (changes : OpId → List (Program → Except ProgramError Program)) :
    Except ProgramError ValueId × Worker :=
  match w.build d changes with
  | (.error e, w) => (.error e, w)
  | (.ok op, w) => (w.program.firstResult op, w)

/-- Removes an operation from the program. -/
def remove (w : Worker) (op : OpId) : Except ProgramError Unit × Worker :=
  match w.program.remove op with
  | .error e => (.error e, w)
  | .ok (o, p) => (.ok (), { w with program := p }.note (.removed op o.name))

/-- Removes what `rank` does not run and answers with the number of removed operations. -/
def prune (w : Worker) (rank : Rank) : Except ProgramError Nat × Worker :=
  match w.program.prune rank with
  | .error e => (.error e, w)
  | .ok (removed, p) =>
    let w := removed.foldl (fun w r => w.note (.removed r.1 r.2.name)) { w with program := p }
    (.ok removed.length, w.note (.pruned removed.length rank))

/-- Requests a group. -/
def request (w : Worker) (ranks : List Rank) (kind : GroupKind) : RankGroup × Worker :=
  match w.groups.find? ranks kind with
  | some g => (g, w.note (.groupReused g))
  | none =>
    let r := w.groups.create ranks kind
    (r.1, { w with groups := r.2 }.note (.groupCreated r.1))

/-- Requests a channel for each member list. -/
def requestChannels (w : Worker) (members : List (List Rank)) : Worker :=
  members.foldl (fun w ranks => (w.request ranks .pointToPoint).2) w

/-- Requests the channels of a transfer from `src` to `dst`, of `rank` only if one is given. -/
def plan (w : Worker) (src dst : Mesh) (rank : Option Rank) (eagerReverse : Bool) : Worker :=
  w.requestChannels (channels (src.pairsWith dst) rank eagerReverse)

end Worker

end CrossMesh
