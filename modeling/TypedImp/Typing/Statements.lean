import TypedImp.Typing.Expressions

/-!
# Checking statements

Checking a statement adds to the tree of scopes and answers the statement with its deduced types
filled in and its blocks numbered.  It ends at the first error; what was added to the tree before
stays there.

* `Check`: computations that add to a tree of scopes.
* `checkVarDecl`, `checkAssignment`, `checkReturn`, `checkCondition`: statements without blocks.
* `checkStmt`, `checkBlock`, `checkBody`: statements and blocks.
* `checkFunction`: a function with its parameters and body.
-/

namespace TypedImp

/-- A computation that adds to a tree of scopes.  What it added stays, also when it ends with an
error. -/
abbrev Check (α : Type) := EStateM Error ScopeTree α

namespace Check

/-- The result of a test that leaves the tree alone. -/
def ofExcept {α : Type} : Except Error α → Check α
  | .ok a => pure a
  | .error e => throw e

/-- The type of an expression in a scope. -/
def typeIn (signatures : Signatures) (scope : Nat) (e : Expr) : Check Ty := do
  ofExcept (typeOf ⟨signatures, ← get, scope⟩ e)

/-- Adds a declaration to a scope. -/
def declare (scope : Nat) (binding : Binding) (span : Span) : Check Unit := do
  set (← ofExcept ((← get).declare scope binding span))

/-- Adds a scope and answers its number. -/
def addScope (parent : Nat) (result : Option Ty) : Check Nat := do
  modify fun t => t.add parent result
  return (← get).size

end Check

/-- The type that a variable gets: the one written, which then has to be that of the initializer,
or the initializer's in place of the placeholder. -/
def settleType (decl : VarDecl) (initializer : Option (Expr × Ty)) : Except Error Ty :=
  match decl.type.ty, initializer with
  | .deduced, none => .error ⟨.initializerRequired decl.name, decl.span⟩
  | .deduced, some (_, t) => .ok t
  | s, none => .ok s
  | s, some (e, t) => if s ≠ t then .error (mismatch s t e.span) else .ok s

/-- The error of giving a variable a type that has no values, if it is one. -/
def requireValues (name : String) (t : Ty) (span : Span) : Except Error Unit :=
  if t.hasValues then .ok () else .error ⟨.invalidVariableType name t.spelling, span⟩

/-- The type of an initializer, if there is one. -/
def checkInitializer (signatures : Signatures) (scope : Nat) :
    Option Expr → Check (Option (Expr × Ty))
  | none => return none
  | some e => do
    let t ← Check.typeIn signatures scope e
    return some (e, t)

/-- Checks a variable and declares it.  The initializer is looked at before the name is declared,
so the name still means what it meant outside. -/
def checkVarDecl (signatures : Signatures) (scope : Nat) (decl : VarDecl) : Check VarDecl := do
  let initializer ← checkInitializer signatures scope decl.initializer
  let t ← Check.ofExcept (settleType decl initializer)
  Check.ofExcept (requireValues decl.name t decl.span)
  Check.declare scope ⟨decl.name, ⟨t, decl.type.isMutable⟩⟩ decl.span
  return { decl with type := ⟨t, decl.type.isMutable⟩ }

/-- Requires an expression to have a type. -/
def checkAgainst (signatures : Signatures) (scope : Nat) (required : Ty) (e : Expr) :
    Check Unit := do
  let t ← Check.typeIn signatures scope e
  if t ≠ required then throw (mismatch required t e.span) else return

/-- Checks an assignment: the variable, its mutability, and then the type of the value. -/
def checkAssignment (signatures : Signatures) (scope : Nat) (name : String) (value : Expr)
    (span : Span) : Check Unit := do
  let scopes ← get
  match (⟨signatures, scopes, scope⟩ : Context).resolve? name with
  | none => throw ⟨.unknownIdentifier name, span⟩
  | some (.function _) | some .builtin => throw ⟨.functionUsedAsValue name, span⟩
  | some (.value type) =>
    if type.isMutable then checkAgainst signatures scope type.ty value
    else throw ⟨.assignmentToImmutable name, span⟩

/-- Checks what a function gives back against the result it has to give. -/
def checkReturn (signatures : Signatures) (scope : Nat) (value : Option Expr) (span : Span) :
    Check Unit := do
  match (← get).result? scope, value with
  | none, _ => throw ⟨.inconsistency "return statement outside of a function", span⟩
  | some required, some e => checkAgainst signatures scope required e
  | some required, none =>
    if required ≠ .void then throw (mismatch required .void span) else return

/-- Checks the condition of a choice or a loop. -/
def checkCondition (signatures : Signatures) (scope : Nat) (condition : Expr) : Check Unit :=
  checkAgainst signatures scope .bool condition

mutual

/-- Checks a statement in a scope. -/
def checkStmt (signatures : Signatures) (scope : Nat) : Stmt → Check Stmt
  | .call callee arguments callSpan span => do
    let _ ← Check.typeIn signatures scope (.call callee arguments callSpan)
    return .call callee arguments callSpan span
  | .define decl => do
    return .define (← checkVarDecl signatures scope decl)
  | .assign name value span => do
    checkAssignment signatures scope name value span
    return .assign name value span
  | .ret value span => do
    checkReturn signatures scope value span
    return .ret value span
  | .ifThenElse condition thenBlock elseBlock span => do
    checkCondition signatures scope condition
    let thenBlock ← checkBlock signatures scope thenBlock
    let elseBlock ← checkBlock signatures scope elseBlock
    return .ifThenElse condition thenBlock elseBlock span
  | .whileDo condition body span => do
    checkCondition signatures scope condition
    let body ← checkBlock signatures scope body
    return .whileDo condition body span

/-- Checks a nested block in a scope of its own.  An empty block has none. -/
def checkBlock (signatures : Signatures) (scope : Nat) : Block Stmt → Check (Block Stmt)
  | ⟨[], id, span⟩ => return ⟨[], id, span⟩
  | ⟨s :: ss, _, span⟩ => do
    let id ← Check.addScope scope none
    let first ← checkStmt signatures id s
    let rest ← checkBody signatures id ss
    return ⟨first :: rest, id, span⟩

/-- Checks statements one after the other. -/
def checkBody (signatures : Signatures) (scope : Nat) : List Stmt → Check (List Stmt)
  | [] => return []
  | s :: ss => do
    let first ← checkStmt signatures scope s
    let rest ← checkBody signatures scope ss
    return first :: rest

end

/-- Declares the parameters of a function. -/
def checkParameters (scope : Nat) : List Parameter → Check Unit
  | [] => return
  | parameter :: parameters => do
    Check.ofExcept (requireValues parameter.name parameter.type.ty parameter.span)
    Check.declare scope ⟨parameter.name, parameter.type⟩ parameter.span
    checkParameters scope parameters

/-- Checks a function.  Its body always has a scope, with the parameters and the result. -/
def checkFunction (signatures : Signatures) (f : FunDecl) : Check FunDecl := do
  let id ← Check.addScope ScopeTree.globalId (some f.result)
  checkParameters id f.parameters
  let body ← checkBody signatures id f.body.body
  return { f with body := ⟨body, id, f.body.span⟩ }

end TypedImp
