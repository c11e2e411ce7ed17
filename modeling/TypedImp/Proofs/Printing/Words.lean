import TypedImp.Grammar.Table
import TypedImp.Proofs.Token.Lexemes
import TypedImp.Syntax.Program

/-!
# Writing programs down

A program is written as a sequence of words with a blank behind each.  Parentheses stand only where
the precedences require them: around a left operand that binds more loosely than its operator, a
right operand that does not bind more tightly, and the operand of a unary operator or of a call that
binds more loosely than these.

## Why words and not tokens

A word is a token, except for a number with a point: its three tokens make one number only if
nothing stands between them, so they are one word.  Spaces between words therefore never matter.

* `Word`, `Word.spelling`, `spellWords`: words and texts of words.
* `Expr.precedence`, `wrapped`: where parentheses stand.
* `Expr.words`, `Stmt.words`, `FunDecl.words`, `Program.words`: what is written.
* `Program.text`: a program as a text.
-/

namespace TypedImp

/-! ## Words -/

/-- What is written between two blanks. -/
inductive Word where
  | token (kind : TokenKind) (text : List Char)
  /-- Two runs of digits with a point between them. -/
  | decimal (whole fraction : List Char)
deriving DecidableEq, Repr

namespace Word

/-- How a word is written. -/
def spelling : Word → List Char
  | token kind text => spelled kind text
  | decimal whole fraction => whole ++ '.' :: fraction

/-- The kind of the first token of a word. -/
def kind : Word → TokenKind
  | token kind _ => kind
  | decimal _ _ => .number

def openParen : Word := token .openParen ['(']
def closeParen : Word := token .closeParen [')']
def openCurly : Word := token .openCurly ['\x7b']
def closeCurly : Word := token .closeCurly ['\x7d']
def comma : Word := token .comma [',']
def semicolon : Word := token .semicolon [';']
def colon : Word := token .colon [':']
def colonEquals : Word := token .colonEquals [':', '=']
def assignment : Word := token .assignment ['=']
def arrow : Word := token .arrow ['-', '>']
def star : Word := token .star ['*']
def minus : Word := token .dash ['-']

/-- A name. -/
def name (name : String) : Word := token .identifier name.toList

/-- A reserved word. -/
def reserved (word : String) : Word := token (.ofWord word) word.toList

end Word

/-- The text of some words: a blank stands behind each of them. -/
def spellWords (words : List Word) : List Char := words.flatMap fun w => w.spelling ++ [' ']

/-- Words between parentheses if these are needed. -/
def wrapped (needed : Bool) (words : List Word) : List Word :=
  if needed then .openParen :: words ++ [.closeParen] else words

/-- Items with commas between them. -/
def commaWords : List (List Word) → List Word
  | [] => []
  | first :: rest => first ++ rest.flatMap (.comma :: ·)

/-! ## Expressions -/

namespace UnaryOp

/-- The kind of the token that an operator is written with. -/
def kind : UnaryOp → TokenKind
  | not => .not
  | plus => .plus
  | minus => .dash

def word (op : UnaryOp) : Word := .token op.kind op.symbol.toList

end UnaryOp

namespace BinaryOp

/-- The kind of the token that an operator is written with. -/
def kind : BinaryOp → TokenKind
  | add => .plus
  | sub => .dash
  | mul => .star
  | div => .slash
  | eq => .equals
  | ne => .notEquals
  | lt => .less
  | le => .lessEquals
  | gt => .greater
  | ge => .greaterEquals

def word (op : BinaryOp) : Word := .token op.kind op.symbol.toList

/-- How tightly an operator binds. -/
def precedence : BinaryOp → Precedence
  | eq | ne => .equality
  | lt | le | gt | ge => .relational
  | add | sub => .additive
  | mul | div => .multiplicative

/-- The table agrees. -/
theorem follow_kind (op : BinaryOp) :
    Grammar.standard.follow op.kind = some (op.precedence, .operator) := by
  cases op <;> rfl

theorem ofKind?_kind (op : BinaryOp) : ofKind? op.kind = some op := by
  cases op <;> rfl

end BinaryOp

/-- The words of a number: with a minus in front it is the least integer, with a point among the
digits a decimal. -/
def numberWords : List Char → List Word
  | '-' :: digits => [.minus, .token .number digits]
  | text =>
    match text.dropWhile Char.isDigit with
    | '.' :: fraction => [.decimal (text.takeWhile Char.isDigit) fraction]
    | _ => [.token .number text]

namespace Expr

/-- How tightly the parts of an expression are bound together. -/
def precedence : Expr → Precedence
  | number .. | string .. | bool .. | name .. => .primary
  | unary .. => .unary
  | binary op .. => op.precedence
  | call .. => .call

mutual

/-- The words of an expression. -/
def words : Expr → List Word
  | number _ text _ => numberWords text.toList
  | string value _ => [.token .string value.toList]
  | bool true _ => [.reserved "true"]
  | bool false _ => [.reserved "false"]
  | name n _ => [.name n]
  | unary op operand _ => op.word :: wrapped (operand.precedence < .unary) operand.words
  | binary op left right _ =>
    wrapped (left.precedence < op.precedence) left.words ++
      op.word :: wrapped (¬ op.precedence < right.precedence) right.words
  | call callee arguments _ =>
    wrapped (callee.precedence < .call) callee.words ++
      .openParen :: (commaWords (wordLists arguments) ++ [.closeParen])

/-- The words of each expression. -/
def wordLists : List Expr → List (List Word)
  | [] => []
  | e :: es => e.words :: wordLists es

end

theorem wordLists_eq_map (es : List Expr) : wordLists es = es.map words := by
  induction es with
  | nil => rfl
  | cons e es ih => rw [wordLists, ih, List.map_cons]

end Expr

/-! ## Types and variables -/

/-- The words of a type. -/
def Ty.words : Ty → List Word
  | .pointer target => .star :: target.words
  | .deduced => [.reserved "_"]
  | t => [.name t.spelling]

/-- The words of a variable's type. -/
def BindingTy.words (b : BindingTy) : List Word :=
  if b.isMutable then .reserved "mutable" :: b.ty.words else b.ty.words

/-- The words behind the name of a variable that is defined.  A type that is only deduced is left
out. -/
def bindingWords : BindingTy → Option Expr → List Word
  | ⟨.deduced, false⟩, some value => .colonEquals :: value.words
  | type, some value => .colon :: (type.words ++ .assignment :: value.words)
  | type, none => .colon :: type.words

/-- The words of a variable's definition. -/
def VarDecl.words (decl : VarDecl) : List Word :=
  .name decl.name :: (bindingWords decl.type decl.initializer ++ [.semicolon])

/-! ## Statements -/

/-- Whether a statement is a choice. -/
def Stmt.isChoice : Stmt → Bool
  | .ifThenElse .. => true
  | _ => false

mutual

/-- The words of a statement. -/
def Stmt.words : Stmt → List Word
  | .call callee arguments callSpan _ =>
    (Expr.call callee arguments callSpan).words ++ [.semicolon]
  | .define decl => decl.words
  | .assign name value _ => .name name :: .assignment :: (value.words ++ [.semicolon])
  | .ret none _ => [.reserved "return", .semicolon]
  | .ret (some value) _ => .reserved "return" :: (value.words ++ [.semicolon])
  | .ifThenElse condition thenBlock elseBlock _ =>
    .reserved "if" :: (condition.words ++ (thenBlock.words ++ elseBlock.elseWords))
  | .whileDo condition body _ => .reserved "while" :: (condition.words ++ body.words)

/-- The words of a block. -/
def Block.words : Block Stmt → List Word
  | ⟨body, _, _⟩ => .openCurly :: (bodyWords body ++ [.closeCurly])

/-- The words of the second block of a choice: none if it is empty, and no braces if another choice
is all that it holds. -/
def Block.elseWords : Block Stmt → List Word
  | ⟨[], _, _⟩ => []
  | ⟨first :: rest, _, _⟩ =>
    if first.isChoice && rest.isEmpty then .reserved "else" :: first.words
    else .reserved "else" :: .openCurly :: (first.words ++ (bodyWords rest ++ [.closeCurly]))

/-- The words of a list of statements. -/
def bodyWords : List Stmt → List Word
  | [] => []
  | s :: ss => s.words ++ bodyWords ss

end

/-! ## Programs -/

/-- The words of a parameter. -/
def Parameter.words (parameter : Parameter) : List Word :=
  .name parameter.name :: .colon :: parameter.type.words

/-- The words of a function. -/
def FunDecl.words (f : FunDecl) : List Word :=
  .name f.name :: .colon :: .openParen :: (commaWords (f.parameters.map Parameter.words) ++
    .closeParen :: .arrow :: (f.result.words ++ .assignment :: f.body.words))

namespace Program

/-- The words of a program, the variables before the functions. -/
def words (p : Program) : List Word :=
  p.globals.flatMap VarDecl.words ++ p.functions.flatMap FunDecl.words

/-- A program as a text. -/
def text (p : Program) : String := String.ofList (spellWords p.words)

end Program

end TypedImp
