import TypedImp.Syntax.Expr
import TypedImp.Token.Basic

/-!
# Which token begins or continues what

Parsing is driven by four tables from token kinds to rules: what begins an expression, what
continues one and how tightly, what begins a statement and what begins a type.  The language has one
grammar, `Grammar.standard`; a grammar is a value, so entries may be changed one at a time.

* `Precedence`: how tightly operators bind.
* `Grammar`, `Grammar.standard`, `Grammar.empty`: the tables.
* `Grammar.setStart` and its companions: a table with one entry changed.
-/

namespace TypedImp

/-- How tightly an operator binds, loosest first. -/
inductive Precedence where
  | lowest
  | equality
  | relational
  | additive
  | multiplicative
  | unary
  | call
  | primary
deriving DecidableEq, Repr

namespace Precedence

/-- The place of a precedence, counted from the loosest. -/
def rank : Precedence → Nat
  | lowest => 0
  | equality => 1
  | relational => 2
  | additive => 3
  | multiplicative => 4
  | unary => 5
  | call => 6
  | primary => 7

instance : LT Precedence := ⟨fun p q => p.rank < q.rank⟩

instance (p q : Precedence) : Decidable (p < q) := inferInstanceAs (Decidable (p.rank < q.rank))

end Precedence

/-- How an expression may begin. -/
inductive StartRule where
  /-- With a literal or a name. -/
  | primary
  /-- With an operator before its operand. -/
  | operator
  /-- With an opening parenthesis. -/
  | group
deriving DecidableEq, Repr

/-- How an expression may go on. -/
inductive FollowRule where
  /-- With an operator and a second operand. -/
  | operator
  /-- With arguments. -/
  | call
deriving DecidableEq, Repr

/-- How a statement may begin. -/
inductive StmtRule where
  /-- With a name: a definition, an assignment or a call. -/
  | identifier
  | ifThenElse
  | whileDo
  | ret
deriving DecidableEq, Repr

/-- How a type may begin. -/
inductive TypeRule where
  /-- With a name. -/
  | name
  /-- With a star before the type pointed to. -/
  | pointer
  /-- With the placeholder. -/
  | deduced
deriving DecidableEq, Repr

/-- The tables that drive parsing. -/
structure Grammar where
  start : TokenKind → Option StartRule
  follow : TokenKind → Option (Precedence × FollowRule)
  stmt : TokenKind → Option StmtRule
  type : TokenKind → Option TypeRule

namespace Grammar

/-- The grammar in which nothing can be parsed. -/
def empty : Grammar := ⟨fun _ => none, fun _ => none, fun _ => none, fun _ => none⟩

/-- What begins an expression of the language. -/
def standardStart : TokenKind → Option StartRule
  | .number | .identifier | .string | .trueWord | .falseWord => some .primary
  | .dash | .plus | .not => some .operator
  | .openParen => some .group
  | _ => none

/-- What continues an expression of the language. -/
def standardFollow : TokenKind → Option (Precedence × FollowRule)
  | .equals | .notEquals => some (.equality, .operator)
  | .less | .lessEquals | .greater | .greaterEquals => some (.relational, .operator)
  | .plus | .dash => some (.additive, .operator)
  | .star | .slash => some (.multiplicative, .operator)
  | .openParen => some (.call, .call)
  | _ => none

/-- What begins a statement of the language. -/
def standardStmt : TokenKind → Option StmtRule
  | .identifier => some .identifier
  | .ifWord => some .ifThenElse
  | .whileWord => some .whileDo
  | .returnWord => some .ret
  | _ => none

/-- What begins a type of the language. -/
def standardType : TokenKind → Option TypeRule
  | .identifier => some .name
  | .star => some .pointer
  | .underscore => some .deduced
  | _ => none

/-- The grammar of the language. -/
def standard : Grammar := ⟨standardStart, standardFollow, standardStmt, standardType⟩

/-- Changes what an expression does when it begins with a token of this kind. -/
def setStart (g : Grammar) (kind : TokenKind) (rule : StartRule) : Grammar :=
  { g with start := fun k => if k = kind then some rule else g.start k }

/-- Changes how an expression goes on at a token of this kind. -/
def setFollow (g : Grammar) (kind : TokenKind) (precedence : Precedence) (rule : FollowRule) :
    Grammar :=
  { g with follow := fun k => if k = kind then some (precedence, rule) else g.follow k }

/-- Changes what a statement does when it begins with a token of this kind. -/
def setStmt (g : Grammar) (kind : TokenKind) (rule : StmtRule) : Grammar :=
  { g with stmt := fun k => if k = kind then some rule else g.stmt k }

/-- Changes what a type does when it begins with a token of this kind. -/
def setType (g : Grammar) (kind : TokenKind) (rule : TypeRule) : Grammar :=
  { g with type := fun k => if k = kind then some rule else g.type k }

end Grammar

namespace UnaryOp

/-- The operator that a token before an operand stands for; all but two stand for a minus. -/
def ofKind : TokenKind → UnaryOp
  | .not => not
  | .plus => plus
  | _ => minus

end UnaryOp

namespace BinaryOp

/-- The operator that a token between two operands stands for. -/
def ofKind? : TokenKind → Option BinaryOp
  | .plus => some add
  | .dash => some sub
  | .star => some mul
  | .slash => some div
  | .equals => some eq
  | .notEquals => some ne
  | .less => some lt
  | .lessEquals => some le
  | .greater => some gt
  | .greaterEquals => some ge
  | _ => none

end BinaryOp

end TypedImp
