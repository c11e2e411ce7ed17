import TypedImp.Number.Shortest
import TypedImp.Text.Blank
import TypedImp.Text.Quoted
import TypedImp.Ty

/-!
# Values

* `Value`, `Value.ty`, `Value.text`: values, their types and how they are shown.
* `Value.zero?`: what a variable without initializer starts with.
* `Value.read?`, `Value.readError`: values given as text.
-/

namespace TypedImp

/-- What a program computes with. -/
inductive Value where
  | int32 (value : Int32)
  | float32 (value : Float32)
  | bool (value : Bool)
  | string (value : String)
  /-- What a call without result gives. -/
  | void
deriving DecidableEq, Repr

namespace Value

/-- The type of a value. -/
def ty : Value → Ty
  | int32 _ => .int32
  | float32 _ => .float32
  | bool _ => .bool
  | string _ => .string
  | void => .void

/-- The value that a variable of a type starts with, if variables can have the type. -/
def zero? : Ty → Option Value
  | .int32 => some (int32 0)
  | .float32 => some (float32 (Float32.ofBits 0))
  | .bool => some (bool false)
  | t => if t = .string then some (string "") else none

/-- The text of a truth value. -/
def boolText (b : Bool) : String := if b then "true" else "false"

/-- How a value is shown. -/
def text : Value → String
  | int32 n => String.ofList (Decimal.integerText n.toInt)
  | float32 v => showFloat32 v
  | bool b => boolText b
  | string s => s
  | void => "void"

/-! ## Values given as text -/

/-- What stands between two quotes, if the text begins and ends with one. -/
def unquote? : List Char → Option (List Char)
  | '"' :: cs => if cs.getLast? = some '"' then some cs.dropLast else none
  | _ => none

/-- Reads a value: text between quotes, a truth value, an integer, or a number with a point.  White
space around it does not matter. -/
def read? (input : String) : Option Value :=
  let cs := Text.trim input.toList
  match unquote? cs with
  | some inner => some (string (String.ofList inner))
  | none =>
    if cs = "true".toList then some (bool true)
    else if cs = "false".toList then some (bool false)
    else
      match readInt32? cs with
      | some n => some (int32 n)
      | none => if cs.contains '.' then (readFloat32? cs).map float32 else none

/-- What is wrong with a text that is not a value. -/
def readError (input : String) : String :=
  s!"cannot read {Text.quote input} as a value, " ++
    "expected an integer, a decimal number, `true` or `false`"

end Value

end TypedImp
