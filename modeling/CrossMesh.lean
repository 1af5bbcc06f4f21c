import CrossMesh.Config.Basic
import CrossMesh.Config.File
import CrossMesh.Config.Printer
import CrossMesh.Config.Reader
import CrossMesh.Decimal.Shortest
import CrossMesh.Groups
import CrossMesh.Journal
import CrossMesh.Json.Basic
import CrossMesh.Json.Mismatch
import CrossMesh.Json.Number
import CrossMesh.Json.Skip
import CrossMesh.Json.Text
import CrossMesh.Mesh
import CrossMesh.Placement
import CrossMesh.Placement.Description
import CrossMesh.Program.Basic
import CrossMesh.Program.Prune
import CrossMesh.Program.Schedule
import CrossMesh.Proofs.Config.Documents
import CrossMesh.Proofs.Groups.History
import CrossMesh.Proofs.Groups.Provided
import CrossMesh.Proofs.Groups.Reachable
import CrossMesh.Proofs.Placement.Suitable
import CrossMesh.Proofs.Program.Answers
import CrossMesh.Proofs.Program.Downstream
import CrossMesh.Proofs.Program.Growth
import CrossMesh.Proofs.Program.InsertionPoint
import CrossMesh.Proofs.Program.Later
import CrossMesh.Proofs.Program.Operands
import CrossMesh.Proofs.Program.Pinned
import CrossMesh.Proofs.Program.Reachable
import CrossMesh.Proofs.Program.Spared
import CrossMesh.Proofs.Program.Tables
import CrossMesh.Proofs.Program.Tape
import CrossMesh.Proofs.Program.WellOrdered
import CrossMesh.Proofs.Relocation.Abandoned
import CrossMesh.Proofs.Relocation.Answer
import CrossMesh.Proofs.Relocation.Back
import CrossMesh.Proofs.Relocation.Failure
import CrossMesh.Proofs.Relocation.Kept
import CrossMesh.Proofs.Relocation.Matching
import CrossMesh.Proofs.Relocation.Moving
import CrossMesh.Proofs.Relocation.Partners
import CrossMesh.Proofs.Relocation.Planning
import CrossMesh.Proofs.Relocation.Replicas
import CrossMesh.Proofs.Relocation.Rounds
import CrossMesh.Proofs.Relocation.Shared
import CrossMesh.Proofs.Relocation.Splice
import CrossMesh.Proofs.Relocation.Stage
import CrossMesh.Proofs.Relocation.Suitability
import CrossMesh.Proofs.Transfer.Channels
import CrossMesh.Proofs.Transfer.Mirror
import CrossMesh.Relocation
import CrossMesh.Strategy
import CrossMesh.StreamKind
import CrossMesh.Tensor
import CrossMesh.Text.GraphemeExtend
import CrossMesh.Text.Listing
import CrossMesh.Text.Quoted
import CrossMesh.Text.Unprintable
import CrossMesh.Transfer
import CrossMesh.Worker
import CrossMesh.Proofs.Mesh.Axes
import CrossMesh.Proofs.Mesh.Building
