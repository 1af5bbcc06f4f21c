import CrossMesh.Config.Basic
import CrossMesh.Placement.Description
import CrossMesh.Program.Schedule
import CrossMesh.Worker

/-!
# Relocations

A relocation moves a value to another mesh and keeps its layout.  Every worker rewrites its own program: the rank at a
position of the source mesh sends the value to the rank at the same position of the destination mesh, which receives
it; a rank at the same position of both keeps the value it has; everyone else, and a sender behind its send, gets a
placeholder, so that the rest of the program still has an operand.
-/

namespace CrossMesh

/-- A value to be relocated: where it lives, where it goes, and its type there. -/
structure Relocation where
  src : Placement
  dst : Placement
  value : ValueId
  type : TensorType
  deriving DecidableEq

inductive RelocationError
  /-- A value of unknown size cannot be received. -/
  | dynamicType (value : ValueId) (type : TensorType)
  /-- The rank belongs to a mesh but to no pair. -/
  | unpaired (rank : Rank)
  /-- The rank stands in two pairs. -/
  | clash (rank : Rank)
  /-- No strategy suits the placements. -/
  | unsupported (value : ValueId) (src dst : Placement)
  | program (e : ProgramError)
  deriving DecidableEq

def RelocationError.message : RelocationError → String
  | dynamicType value type =>
    "cannot receive " ++ value.text ++ " with dynamic type " ++ type.text ++
      ": dynamic shapes are not supported by cross-mesh resharding"
  | unpaired rank =>
    "rank " ++ toString rank ++ " belongs to the source or destination mesh but to no transfer pair"
  | clash rank => "rank " ++ toString rank ++ " appears in more than one transfer pair"
  | unsupported value src dst =>
    "no reshard function can convert " ++ value.text ++ " from " ++ src.description ++ " to " ++ dst.description
  | program e => e.message

namespace Relocation

/-- The pairs of ranks the value moves between. -/
def pairs (m : Relocation) : List (Rank × Rank) := m.src.mesh.pairsWith m.dst.mesh

end Relocation

namespace Worker

/-- Inserts a send of the value to the second member of a group. -/
def insertSend (w : Worker) (m : Relocation) (group : Nat) (chunk : Int) (stream : StreamKind) :
    Except ProgramError OpId × Worker :=
  w.build { kind := .send group 1 false, operands := [m.value], types := [] } fun op =>
    [(·.setPlacement op { mesh := m.src.mesh, operands := [m.src], results := [], chunk }), (·.setStream op stream)]

/-- Inserts a receive of the value from the first member of a group.  The result has its size only afterwards. -/
def insertReceive (w : Worker) (m : Relocation) (group : Nat) (chunk : Int) (stream : StreamKind) :
    Except ProgramError ValueId × Worker :=
  w.buildResult { kind := .receive group 0 m.type.elem false, operands := [], types := [⟨[], m.type.elem⟩] } fun op =>
    [(·.setPlacement op { mesh := m.dst.mesh, operands := [], results := [m.dst], chunk }),
      (·.setResultType op m.type), (·.setStream op stream)]

/-- Inserts a placeholder of the value at its destination. -/
def insertPlaceholder (w : Worker) (m : Relocation) : Except ProgramError ValueId × Worker :=
  w.buildResult { kind := .placeholder m.dst, operands := [m.value], types := [m.type] } fun op =>
    [(·.setPlacement op { mesh := m.dst.mesh, operands := [m.src], results := [m.dst], chunk := unscheduled })]

/-- Sends the value to `peer`, scheduled like the operation that makes it. -/
def send (w : Worker) (rank peer : Rank) (config : Config) (m : Relocation) : Except RelocationError Unit × Worker :=
  match w.program.definingChunk m.value with
  | .error e => (.error (.program e), w)
  | .ok chunk =>
    let (group, w) := w.request [rank, peer] .pointToPoint
    match w.insertSend m group.id chunk config.stream with
    | (.error e, w) => (.error (.program e), w)
    | (.ok _, w) => (.ok (), w.note (.sending m.value peer group.id chunk))

/-- Receives the value from `peer`, scheduled like the operation that uses it on the destination mesh. -/
def receive (w : Worker) (rank peer : Rank) (config : Config) (m : Relocation) :
    Except RelocationError ValueId × Worker :=
  let chunk := w.program.receivingChunk m.value m.dst.mesh
  if m.type.Dynamic then (.error (.dynamicType m.value m.type), w)
  else
    let (group, w) := w.request [peer, rank] .pointToPoint
    match w.insertReceive m group.id chunk config.stream with
    | (.error e, w) => (.error (.program e), w)
    | (.ok value, w) => (.ok value, w.note (.receiving value peer group.id chunk))

/-- Puts a placeholder where the value is not needed. -/
def standIn (w : Worker) (m : Relocation) : Except RelocationError ValueId × Worker :=
  match w.insertPlaceholder m with
  | (.error e, w) => (.error (.program e), w)
  | (.ok value, w) => (.ok value, w)

/-- Inserts the part of a relocation that `role` asks for and answers with the value that stands for the destination
on this worker. -/
def perform (w : Worker) (rank : Rank) (config : Config) (m : Relocation) :
    Role → Except RelocationError ValueId × Worker
  | .sender peer =>
    match w.send rank peer config m with
    | (.error e, w) => (.error e, w)
    | (.ok (), w) => w.standIn m
  | .receiver peer => w.receive rank peer config m
  | .stationary => (.ok m.value, w)
  | .bystander =>
    if rank ∈ m.src.mesh ∨ rank ∈ m.dst.mesh then (.error (.unpaired rank), w.note (.unpaired rank m.pairs))
    else w.standIn m

/-- The worker that is ready for its part: the channels of `rank` are requested and its role is found. -/
def prepared (w : Worker) (rank : Rank) (config : Config) (m : Relocation) : Worker :=
  (w.plan m.src.mesh m.dst.mesh (some rank) config.eagerReverse).note
    (.roleResolved rank (roleOf m.pairs rank) m.value)

/-- Relocates a value by the rank's part of the transfer.  A rank in two pairs is refused by every worker before
anything else is done; then the channels of `rank` are requested. -/
def relocate (w : Worker) (rank : Rank) (config : Config) (m : Relocation) :
    Except RelocationError ValueId × Worker :=
  match clash? m.pairs with
  | some r => (.error (.clash r), w.note (.clashed r m.pairs))
  | none => (w.prepared rank config m).perform rank config m (roleOf m.pairs rank)

end Worker

end CrossMesh
