/-!
# Tensor types

The static type of a value: the sizes of its local dimensions and the type of its elements.
-/

namespace CrossMesh

inductive ElementType
  | f16 | bf16 | f32 | f64 | i32 | i64 | bool
  deriving DecidableEq

namespace ElementType

def all : List ElementType := [f16, bf16, f32, f64, i32, i64, bool]

def name : ElementType → String
  | f16 => "F16"
  | bf16 => "BF16"
  | f32 => "F32"
  | f64 => "F64"
  | i32 => "I32"
  | i64 => "I64"
  | bool => "Bool"

def ofName? (name : String) : Option ElementType := all.find? (·.name = name)

end ElementType

/-- The size of a dimension that is only known when the program runs. -/
def dynamicSize : Int := -1

structure TensorType where
  shape : List Int
  elem : ElementType
  deriving DecidableEq

namespace TensorType

/-- Whether some dimension is only known when the program runs. -/
def Dynamic (type : TensorType) : Prop := dynamicSize ∈ type.shape

instance (type : TensorType) : Decidable type.Dynamic := inferInstanceAs (Decidable (dynamicSize ∈ type.shape))

def sizeText (size : Int) : String := if size = dynamicSize then "?" else toString size

/-- The text `tensor<?x8xBF16>`: each size is followed by an `x`. -/
def text (type : TensorType) : String :=
  "tensor<" ++ String.join (type.shape.map fun size => sizeText size ++ "x") ++ type.elem.name ++ ">"

end TensorType

end CrossMesh
