import TypedImp.Grammar.Statements
import TypedImp.Syntax.Program

/-!
# Parsing functions and programs

A program is a sequence of definitions.  A name with a colon and an opening parenthesis begins a
function, any other definition is that of a global variable.

* `Parse.parameter`, `Parse.function`: functions.
* `Parse.definition`: one definition, added to a program.
* `parse`: a whole program.
-/

namespace TypedImp

namespace Parse

/-- A parameter with its type. -/
def parameter (g : Grammar) (fuel : Nat) : Parse Parameter := do
  let name ← expectFor .identifier "expected a parameter name"
  let _ ← expect .colon
  let isMutable ← skip .mutableWord
  let ty ← explicitType g fuel "parameters need an explicit type"
  return ⟨name.value, ⟨ty, isMutable⟩, ← spanFrom name.span⟩

/-- The definition of a function; a semicolon may stand behind it. -/
def function (g : Grammar) (fuel : Nat) : Parse FunDecl := do
  let name ← expect .identifier
  let _ ← expect .colon
  let _ ← expect .openParen
  let parameters ← untilParen (parameter g fuel) fuel
  let _ ← expectFor .closeParen "expected `,` or `)` after a parameter"
  let _ ← expectFor .arrow "expected `->` and a return type"
  let result ← explicitType g fuel "the return type cannot be deduced"
  let _ ← expectFor .assignment "expected `=` before the function body"
  let body ← block g fuel
  let _ ← skip .semicolon
  return ⟨name.value, parameters, result, body, ← spanFrom name.span⟩

/-- One definition, added to the end of a program. -/
def definition (g : Grammar) (fuel : Nat) (program : Program) : Parse Program := do
  if (← currentKind) = .identifier then
    match ← peekKind 1, ← peekKind 2 with
    | .colon, .openParen =>
      let f ← function g fuel
      return { program with functions := program.functions ++ [f] }
    | .colon, _ | .colonEquals, _ =>
      let decl ← varDecl g fuel
      return { program with globals := program.globals ++ [decl] }
    | _, _ =>
      let _ ← next
      fail "expected `:` or `:=` after the name"
  else fail "expected a function or variable definition"

/-- Definitions up to the end of the input. -/
def definitions (g : Grammar) : (fuel : Nat) → Program → Parse Program
  | 0, _ => exhausted
  | fuel + 1, program => do
    if (← get).hasTokens then
      let program ← definition g fuel program
      definitions g fuel program
    else return program

end Parse

/-- The program that the tokens spell, or the first thing that is wrong with them. -/
def parse (tokens : List Token) : Except Stop Program :=
  let cursor := Cursor.ofTokens tokens
  match Parse.definitions .standard cursor.fuel .empty cursor with
  | .ok program _ => .ok program
  | .error stop _ => .error stop

end TypedImp
