/-!
# Types

The types of the language, two placeholders among them: `_`, which stands for the type of a
variable's initializer, and the type of the builtin's parameter, which takes anything.  Whether a
variable may be assigned to belongs to the variable and not to its type.

* `Ty`, `Ty.spelling`: the types and how they are written.
* `Ty.same_iff`: equality of types can be decided.
* `Ty.ofName`: the type a name denotes.
* `Ty.isNumeric`, `Ty.isPlaceholder`, `Ty.hasValues`: classes of types.
* `BindingTy`: a type together with the mutability of a variable.
-/

namespace TypedImp

/-- The types of the language. -/
inductive Ty where
  | void
  | bool
  | int32
  | float32
  /-- To be replaced by the type of an initializer. -/
  | deduced
  /-- Takes a value of any type. -/
  | unspecified
  /-- A name without a meaning of its own. -/
  | named (name : String)
  | function (parameters : List Ty) (result : Ty)
  | pointer (target : Ty)
deriving Repr

/-- Parameters and result of a function. -/
structure Signature where
  parameters : List Ty
  result : Ty
deriving Repr

namespace Ty

/-! ## Equality -/

mutual

/-- Whether two types are the same. -/
def same : Ty → Ty → Bool
  | void, void | bool, bool | int32, int32 | float32, float32 => true
  | deduced, deduced | unspecified, unspecified => true
  | named a, named b => a = b
  | function ps r, function qs s => sameAll ps qs && same r s
  | pointer s, pointer t => same s t
  | _, _ => false

/-- Whether two lists of types are the same. -/
def sameAll : List Ty → List Ty → Bool
  | [], [] => true
  | s :: ss, t :: ts => same s t && sameAll ss ts
  | _, _ => false

end

mutual

/-- The test for sameness is equality. -/
theorem same_iff : (s t : Ty) → (same s t = true ↔ s = t)
  | void, t | bool, t | int32, t | float32, t | deduced, t | unspecified, t | named _, t => by
    cases t <;> simp [same]
  | function ps r, t => by cases t <;> simp [same, sameAll_iff ps, same_iff r]
  | pointer s, t => by cases t <;> simp [same, same_iff s]

/-- On lists, too, the test for sameness is equality. -/
theorem sameAll_iff : (ss ts : List Ty) → (sameAll ss ts = true ↔ ss = ts)
  | [], ts => by cases ts <;> simp [sameAll]
  | s :: ss, ts => by cases ts <;> simp [sameAll, same_iff s, sameAll_iff ss]

end

instance : DecidableEq Ty := fun s t => decidable_of_iff (same s t) (same_iff s t)

/-! ## Spelling and classes -/

mutual

/-- How a type is written. -/
def spelling : Ty → String
  | void => "void"
  | bool => "Bool"
  | int32 => "Int32"
  | float32 => "Float32"
  | deduced => "_"
  | unspecified => "?"
  | named name => name
  | function parameters result =>
    "(" ++ ", ".intercalate (spellings parameters) ++ ") -> " ++ result.spelling
  | pointer target => "*" ++ target.spelling

/-- How the types of a list are written. -/
def spellings : List Ty → List String
  | [] => []
  | t :: ts => t.spelling :: spellings ts

end

/-- The type of string literals. -/
def string : Ty := pointer (named "Char")

/-- The type that a name denotes. -/
def ofName (name : String) : Ty :=
  if name = "Int32" then int32
  else if name = "Float32" then float32
  else if name = "Bool" then bool
  else if name = "void" ∨ name = "Void" then void
  else named name

/-- Whether there is arithmetic on values of the type. -/
def isNumeric : Ty → Bool
  | int32 | float32 => true
  | _ => false

mutual

/-- Whether some part of the type still stands for another type. -/
def isPlaceholder : Ty → Bool
  | deduced | unspecified => true
  | function parameters result => anyPlaceholder parameters || result.isPlaceholder
  | pointer target => target.isPlaceholder
  | _ => false

/-- Whether one of the types has a part that stands for another type. -/
def anyPlaceholder : List Ty → Bool
  | [] => false
  | t :: ts => t.isPlaceholder || anyPlaceholder ts

end

/-- Whether a variable may have the type. -/
def hasValues (t : Ty) : Bool :=
  t = int32 || t = float32 || t = bool || t = string

end Ty

namespace Signature

/-- The type of functions with this signature. -/
def ty (s : Signature) : Ty := .function s.parameters s.result

end Signature

/-- The type of a variable, and whether it may be assigned to. -/
structure BindingTy where
  ty : Ty
  isMutable : Bool
deriving DecidableEq, Repr

namespace BindingTy

/-- How the type of a variable is written. -/
def spelling (b : BindingTy) : String :=
  if b.isMutable then "mutable " ++ b.ty.spelling else b.ty.spelling

end BindingTy

end TypedImp
