import TypedImp.Grammar.Cursor
import TypedImp.Grammar.Table
import TypedImp.Ty

/-!
# Parsing types

* `Parse.nameType`, `Parse.deducedType`, `Parse.pointerType`: one rule each.
* `Parse.type`: any type.
* `Parse.explicitType`: a type without placeholder.
-/

namespace TypedImp.Parse

/-- A type that is given by its name. -/
def nameType : Parse Ty := do
  return .ofName (← expect .identifier).value

/-- The placeholder for a type to be deduced. -/
def deducedType : Parse Ty := do
  let _ ← expect .underscore
  return .deduced

mutual

/-- A type that begins with the current token. -/
def type (g : Grammar) : (fuel : Nat) → Parse Ty
  | 0 => exhausted
  | fuel + 1 => do
    match g.type (← currentKind) with
    | some .name => nameType
    | some .pointer => pointerType g fuel
    | some .deduced => deducedType
    | none => fail "expected a type"

/-- A star and the type pointed to. -/
def pointerType (g : Grammar) : (fuel : Nat) → Parse Ty
  | 0 => exhausted
  | fuel + 1 => do
    let _ ← expect .star
    return .pointer (← type g fuel)

end

/-- A type that is written out; the message says why a placeholder will not do. -/
def explicitType (g : Grammar) (fuel : Nat) (message : String) : Parse Ty := do
  if (← currentKind) = .underscore then fail message
  else
    let t ← type g fuel
    if t.isPlaceholder then fail message else return t

end TypedImp.Parse
