import TypedImp.Grammar.Expressions
import TypedImp.Grammar.Types
import TypedImp.Syntax.Stmt

/-!
# Parsing statements

* `Parse.varDecl`, `Parse.assignment`, `Parse.callStmt`, `Parse.returnStmt`: statements without
  blocks.
* `Parse.stmt`, `Parse.block`: any statement, and statements between braces.
* `Parse.ifStmt`, `Parse.whileStmt`: statements that hold blocks.
-/

namespace TypedImp.Parse

/-- The value behind a sign, if the sign stands here. -/
def valueAfter (g : Grammar) (fuel : Nat) (sign : TokenKind) : Parse (Option Expr) := do
  if ← skip sign then return some (← expr g fuel .lowest)
  else return none

/-- The type of a variable, which may be preceded by the word that makes it mutable. -/
def bindingType (g : Grammar) (fuel : Nat) : Parse BindingTy := do
  let isMutable ← skip .mutableWord
  let ty ← type g fuel
  return ⟨ty, isMutable⟩

/-- What follows the name of a variable: `:=` and a value, or a type with or without a value. -/
def typeAndValue (g : Grammar) (fuel : Nat) : Parse (BindingTy × Option Expr) := do
  if ← skip .colonEquals then
    let value ← expr g fuel .lowest
    return (⟨.deduced, false⟩, some value)
  else
    let _ ← expect .colon
    let type ← bindingType g fuel
    let value ← valueAfter g fuel .assignment
    return (type, value)

/-- The definition of a variable. -/
def varDecl (g : Grammar) (fuel : Nat) : Parse VarDecl := do
  let name ← expect .identifier
  let (type, initializer) ← typeAndValue g fuel
  let _ ← expect .semicolon
  return ⟨name.value, type, initializer, ← spanFrom name.span⟩

/-- A new value for a variable. -/
def assignment (g : Grammar) (fuel : Nat) : Parse Stmt := do
  let name ← expect .identifier
  let _ ← expect .assignment
  let value ← expr g fuel .lowest
  let _ ← expect .semicolon
  return .assign name.value value (← spanFrom name.span)

/-- A call that is used as a statement. -/
def callStmt (g : Grammar) (fuel : Nat) : Parse Stmt := do
  let start := (← get).current.span
  match ← expr g fuel .lowest with
  | .call callee arguments span =>
    let _ ← expect .semicolon
    return .call callee arguments span (← spanFrom start)
  | _ => fail "only calls can be used as statements"

/-- A statement that begins with a name; the tokens behind the name tell which. -/
def identifierStmt (g : Grammar) (fuel : Nat) : Parse Stmt := do
  match ← peekKind 1, ← peekKind 2 with
  | .colon, .openParen =>
    let _ ← next
    let _ ← next
    fail "functions can only be defined at the top level"
  | .colon, _ | .colonEquals, _ => return .define (← varDecl g fuel)
  | .assignment, _ => assignment g fuel
  | _, _ => callStmt g fuel

/-- The value before a semicolon, if there is one. -/
def optionalValue (g : Grammar) (fuel : Nat) : Parse (Option Expr) := do
  if (← currentKind) = .semicolon then return none
  else return some (← expr g fuel .lowest)

/-- A statement that ends the function, with a value or without one. -/
def returnStmt (g : Grammar) (fuel : Nat) : Parse Stmt := do
  let word ← next
  let value ← optionalValue g fuel
  let _ ← expect .semicolon
  return .ret value (← spanFrom word.span)

/-- Statements up to a closing brace, which is not passed. -/
def untilClose (item : Parse Stmt) : (fuel : Nat) → Parse (List Stmt)
  | 0 => exhausted
  | fuel + 1 => do
    match ← currentKind with
    | .closeCurly => return []
    | .endOfInput => fail "expected `\x7d` to close the block"
    | _ =>
      let first ← item
      let rest ← untilClose item fuel
      return first :: rest

mutual

/-- A statement, by the rule of its first token. -/
def stmt (g : Grammar) : (fuel : Nat) → Parse Stmt
  | 0 => exhausted
  | fuel + 1 => do
    match g.stmt (← currentKind) with
    | none => fail "expected a statement"
    | some .identifier => identifierStmt g fuel
    | some .ifThenElse => ifStmt g fuel
    | some .whileDo => whileStmt g fuel
    | some .ret => returnStmt g fuel

/-- Statements between braces. -/
def block (g : Grammar) : (fuel : Nat) → Parse (Block Stmt)
  | 0 => exhausted
  | fuel + 1 => do
    let start ← expectFor .openCurly "expected `\x7b` to open a block"
    let body ← untilClose (stmt g fuel) fuel
    let _ ← expect .closeCurly
    return .unresolved body (← spanFrom start.span)

/-- A choice, from the word that begins it. -/
def ifStmt (g : Grammar) : (fuel : Nat) → Parse Stmt
  | 0 => exhausted
  | fuel + 1 => do
    let word ← next
    let condition ← expr g fuel .lowest
    let thenBlock ← block g fuel
    let elseBlock ← elseBlock g fuel
    return .ifThenElse condition thenBlock elseBlock (← spanFrom word.span)

/-- The second block of a choice.  Without `else` it is empty and covers the token before; another
choice right after `else` is its only statement. -/
def elseBlock (g : Grammar) : (fuel : Nat) → Parse (Block Stmt)
  | 0 => exhausted
  | fuel + 1 => do
    if ← skip .elseWord then
      if (← currentKind) = .ifWord then
        let nested ← ifStmt g fuel
        return .unresolved [nested] nested.span
      else block g fuel
    else return .unresolved [] (← get).previousSpan

/-- A loop, from the word that begins it. -/
def whileStmt (g : Grammar) : (fuel : Nat) → Parse Stmt
  | 0 => exhausted
  | fuel + 1 => do
    let word ← next
    let condition ← expr g fuel .lowest
    let body ← block g fuel
    return .whileDo condition body (← spanFrom word.span)

end

end TypedImp.Parse
