import CrossMesh.Placement
import CrossMesh.StreamKind
import CrossMesh.Tensor

/-!
# Tensor programs

A program is a table of operations, a table of values and an execution order with an insertion point.  Operations and
values are numbered in the order they are made and no number is used twice: the place of a removed operation stays
empty.  `Program.live` is the program as it is executed: the operations that are left, in execution order.
-/

namespace CrossMesh

structure OpId where
  index : Nat
  deriving DecidableEq

structure ValueId where
  index : Nat
  deriving DecidableEq, Inhabited

def OpId.text (op : OpId) : String := "op#" ++ toString op.index

def ValueId.text (value : ValueId) : String := "%" ++ toString value.index

inductive OpKind
  /-- A computation, of which only the name matters. -/
  | compute (name : String)
  /-- Sends the operand over a group to the member at the place `peer`. -/
  | send (group peer : Nat) (dynamicShape : Bool)
  /-- Receives the result over a group from the member at the place `peer`. -/
  | receive (group peer : Nat) (elem : ElementType) (dynamicShape : Bool)
  /-- Stands for a value that lives elsewhere, with the placement it has there. -/
  | placeholder (placement : Placement)
  deriving DecidableEq

def OpKind.name : OpKind → String
  | compute name => name
  | send .. => "p_send"
  | receive .. => "p_recv"
  | placeholder _ => "reshard"

structure Operation where
  kind : OpKind
  operands : List ValueId
  results : List ValueId
  placement : Option OpPlacement
  stream : Option StreamKind
  deriving DecidableEq

namespace Operation

def name (o : Operation) : String := o.kind.name

def IsPlaceholder (o : Operation) : Prop :=
  match o.kind with
  | .placeholder _ => True
  | _ => False

instance (o : Operation) : Decidable o.IsPlaceholder := by
  unfold IsPlaceholder
  split <;> infer_instance

/-- Whether the value is an operand. -/
def consumes (o : Operation) (value : ValueId) : Bool := o.operands.contains value

/-- The chunk written on the operation, `unscheduled` where it has no placement. -/
def chunk (o : Operation) : Int := (o.placement.map OpPlacement.chunk).getD unscheduled

/-- The chunk that schedules the operation, if one does. -/
def scheduled? (o : Operation) : Option Int := o.placement.bind OpPlacement.scheduled?

end Operation

/-- Where a value comes from. -/
inductive Origin
  /-- An input of the program, with the placement it was given. -/
  | input (placement : Option Placement)
  /-- The result of an operation at a place among its results. -/
  | result (op : OpId) (index : Nat)
  deriving DecidableEq

structure Value where
  type : TensorType
  origin : Origin
  deriving DecidableEq

structure Program where
  /-- All operations ever inserted; the place of a removed one is empty. -/
  ops : Array (Option Operation) := #[]
  values : Array Value := #[]
  /-- The execution order. -/
  order : List OpId := []
  /-- How many operations of the order stand before the insertion point; without one, it is the end. -/
  cursor : Option Nat := none
  deriving DecidableEq

inductive ProgramError
  | unknownOp (op : OpId)
  | unknownValue (value : ValueId)
  /-- The operation cannot be removed because its result is used. -/
  | resultInUse (op : OpId) (value : ValueId)
  deriving DecidableEq

def ProgramError.message : ProgramError → String
  | unknownOp op => "unknown operation " ++ op.text
  | unknownValue value => "unknown value " ++ value.text
  | resultInUse op value => "cannot remove " ++ op.text ++ ": result " ++ value.text ++ " is still used"

namespace Program

/-! ### Reading -/

def op? (p : Program) (op : OpId) : Option Operation := p.ops[op.index]?.join

def value? (p : Program) (value : ValueId) : Option Value := p.values[value.index]?

/-- The id of the next operation. -/
def nextOp (p : Program) : OpId := ⟨p.ops.size⟩

/-- The id of the next value. -/
def nextValue (p : Program) : ValueId := ⟨p.values.size⟩

def op (p : Program) (op : OpId) : Except ProgramError Operation :=
  match p.op? op with
  | some o => .ok o
  | none => .error (.unknownOp op)

def value (p : Program) (value : ValueId) : Except ProgramError Value :=
  match p.value? value with
  | some v => .ok v
  | none => .error (.unknownValue value)

def valueType (p : Program) (value : ValueId) : Except ProgramError TensorType :=
  (p.value value).map Value.type

/-- The first result of an operation, which must have one. -/
def firstResult (p : Program) (op : OpId) : Except ProgramError ValueId :=
  (p.op op).map fun o => o.results[0]!

/-- The operation that makes a value, `none` for an input.  A removed operation is still named. -/
def definingOp (p : Program) (value : ValueId) : Except ProgramError (Option OpId) :=
  (p.value value).map fun v =>
    match v.origin with
    | .input _ => none
    | .result op _ => some op

/-- The placement of a value: a result has the one its operation declares for it, an input its own. -/
def valuePlacement (p : Program) (value : ValueId) : Except ProgramError (Option Placement) :=
  match p.value value with
  | .error e => .error e
  | .ok v =>
    match v.origin with
    | .input placement => .ok placement
    | .result op index => (p.op op).map fun o => o.placement.bind fun a => a.results[index]?

/-- The operations that are left, in execution order. -/
def live (p : Program) : List (OpId × Operation) :=
  p.order.filterMap fun id => (p.op? id).map fun o => (id, o)

/-- The number of operations in the execution order. -/
def numOps (p : Program) : Nat := p.order.length

/-- The operations with `value` as an operand, in execution order. -/
def users (p : Program) (value : ValueId) : List (OpId × Operation) :=
  p.live.filter fun u => u.2.consumes value

def hasUsers (p : Program) (value : ValueId) : Bool := !(p.users value).isEmpty

/-- The place of an operation in the execution order. -/
def position (p : Program) (op : OpId) : Except ProgramError Nat :=
  match p.order.idxOf? op with
  | some i => .ok i
  | none => .error (.unknownOp op)

/-! ### The insertion point -/

/-- Makes later insertions land right before `op`. -/
def before (p : Program) (op : OpId) : Except ProgramError Program :=
  (p.position op).map fun i => { p with cursor := some i }

/-- Makes later insertions land right after `op`. -/
def after (p : Program) (op : OpId) : Except ProgramError Program :=
  (p.position op).map fun i => { p with cursor := some (i + 1) }

/-- Makes later insertions land at the end. -/
def atEnd (p : Program) : Program := { p with cursor := none }

/-! ### Inserting -/

def addInput (p : Program) (type : TensorType) (placement : Option Placement) : Program :=
  { p with values := p.values.push { type, origin := .input placement } }

/-- An operation to be inserted; its results are known by their types. -/
structure Draft where
  kind : OpKind
  operands : List ValueId
  types : List TensorType
  placement : Option OpPlacement := none
  stream : Option StreamKind := none
  deriving DecidableEq

/-- The results of a draft that is inserted next. -/
def draftResults (p : Program) (d : Draft) : List ValueId :=
  (List.range d.types.length).map fun i => ⟨p.values.size + i⟩

/-- The operation a draft becomes when it is inserted next. -/
def draftOperation (p : Program) (d : Draft) : Operation where
  kind := d.kind
  operands := d.operands
  results := p.draftResults d
  placement := d.placement
  stream := d.stream

/-- Inserts a draft whose operands are known: its results become new values, and its id goes to the insertion point,
which moves behind it. -/
def place (p : Program) (d : Draft) : Program :=
  { ops := p.ops.push (some (p.draftOperation d))
    values := p.values ++ (d.types.mapIdx fun i type => { type, origin := .result p.nextOp i }).toArray
    order := match p.cursor with
      | none => p.order ++ [p.nextOp]
      | some c => p.order.insertIdx c p.nextOp
    cursor := p.cursor.map (· + 1) }

/-- Inserts a draft and answers with its id; an unknown operand is refused. -/
def insert (p : Program) (d : Draft) : Except ProgramError (OpId × Program) :=
  match d.operands.find? fun v => p.values.size ≤ v.index with
  | some v => .error (.unknownValue v)
  | none => .ok (p.nextOp, p.place d)

/-! ### Changing and removing -/

def setOp (p : Program) (op : OpId) (f : Operation → Operation) : Except ProgramError Program :=
  (p.op op).map fun o => { p with ops := p.ops.setIfInBounds op.index (some (f o)) }

/-- Gives an operation a placement, and so its results theirs. -/
def setPlacement (p : Program) (op : OpId) (placement : OpPlacement) : Except ProgramError Program :=
  p.setOp op fun o => { o with placement := some placement }

def setStream (p : Program) (op : OpId) (stream : StreamKind) : Except ProgramError Program :=
  p.setOp op fun o => { o with stream := some stream }

def setType (p : Program) (value : ValueId) (type : TensorType) : Except ProgramError Program :=
  (p.value value).map fun v => { p with values := p.values.setIfInBounds value.index { v with type } }

/-- Gives the first result of an operation a type. -/
def setResultType (p : Program) (op : OpId) (type : TensorType) : Except ProgramError Program :=
  match p.firstResult op with
  | .error e => .error e
  | .ok v => p.setType v type

/-- Makes changes one after the other, up to one that fails.  Those before it stay made. -/
def changeAll (p : Program) : List (Program → Except ProgramError Program) → Except ProgramError Unit × Program
  | [] => (.ok (), p)
  | f :: fs =>
    match f p with
    | .error e => (.error e, p)
    | .ok p => p.changeAll fs

/-- Removes an operation none of whose results is used, and answers with it.  The insertion point stays between the
same two operations. -/
def remove (p : Program) (op : OpId) : Except ProgramError (Operation × Program) :=
  match p.position op with
  | .error e => .error e
  | .ok i =>
    match p.op op with
    | .error e => .error e
    | .ok o =>
      match o.results.find? p.hasUsers with
      | some v => .error (.resultInUse op v)
      | none =>
        .ok (o, { p with
          ops := p.ops.setIfInBounds op.index none
          order := p.order.eraseIdx i
          cursor := p.cursor.map fun c => if i < c then c - 1 else c })

/-- Removing an operation makes the execution order shorter. -/
theorem length_order_remove {p q : Program} {op : OpId} {o : Operation} (h : p.remove op = .ok (o, q)) :
    q.order.length < p.order.length := by
  unfold remove position at h
  cases hi : p.order.idxOf? op with
  | none => simp [hi] at h
  | some i =>
    have hlt : i < p.order.length := by
      obtain ⟨hlt, -⟩ := List.findIdx?_eq_some_iff_getElem.1 hi
      exact hlt
    simp only [hi] at h
    split at h
    · exact absurd h (by simp)
    · split at h
      · exact absurd h (by simp)
      · obtain ⟨-, rfl⟩ := Prod.mk.inj (Except.ok.inj h)
        simp only [List.length_eraseIdx, hlt, ↓reduceIte]
        omega

end Program

end CrossMesh
