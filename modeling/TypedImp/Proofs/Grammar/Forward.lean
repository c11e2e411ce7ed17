import TypedImp.Grammar.Programs
import TypedImp.Proofs.Grammar.Moves

/-!
# Parsing only moves forward

Whatever is parsed, with any rules and with any amount of fuel, the cursor is moved by passing the
current token and by nothing else, and an end of input is never passed.  So the cursor that is left,
with a result or without one, is one that can be reached by advancing.

Nothing needs to be known for this about the tokens, nor about the fuel.  That is why it is not a
part of the statement that parsing settles, which needs both.

* `Parse.Forward`: a computation that only moves forward, with a law per combinator.
* `Parse.Called`: the computations of the grammar.
* `Parse.Called.forward`: **all of them only move forward.**
-/

namespace TypedImp

namespace Parse

/-- However it ends, a computation has only moved the cursor forward. -/
def Forward {α : Type} (x : Parse α) : Prop := ∀ c : Cursor, c.Moves (final (x c))

namespace Forward

variable {α β : Type} {x : Parse α}

theorem pure (a : α) : Forward (Pure.pure a : Parse α) := fun c => .refl c

theorem raise (error : Error) : Forward (Parse.raise (α := α) error) := fun c => .refl c

theorem exhausted : Forward (Parse.exhausted (α := α)) := fun c => .refl c

theorem fail (message : String) : Forward (Parse.fail (α := α) message) := fun c => .refl c

/-- One computation after the other.  If the first one fails, there is no second one. -/
theorem bind {f : α → Parse β} (hx : Forward x) (hf : ∀ a, Forward (f a)) :
    Forward (x >>= f) := by
  intro c
  have hfirst := hx c
  change c.Moves (final (EStateM.bind x f c))
  unfold EStateM.bind
  generalize x c = result at hfirst ⊢
  cases result with
  | ok a c' => exact hfirst.trans (hf a c')
  | error stop c' => exact hfirst

theorem get : Forward (MonadState.get : Parse Cursor) := fun c => .refl c

theorem currentKind : Forward Parse.currentKind := fun c => .refl c

theorem peekKind (n : Nat) : Forward (Parse.peekKind n) := fun c => .refl c

theorem spanFrom (span : Span) : Forward (Parse.spanFrom span) := fun c => .refl c

theorem next : Forward Parse.next := fun c => c.moves_advance

theorem expect (kind : TokenKind) : Forward (Parse.expect kind) := by
  refine bind get fun c => ?_
  split
  · exact next
  · exact raise c.unexpected

theorem expectFor (kind : TokenKind) (message : String) :
    Forward (Parse.expectFor kind message) := by
  refine bind get fun c => ?_
  split
  · exact next
  · exact raise (c.unexpectedFor message)

theorem skip (kind : TokenKind) : Forward (Parse.skip kind) := by
  refine bind currentKind fun current => ?_
  split
  · exact bind next fun _ => pure true
  · exact pure false

theorem commaSeparated (hx : Forward x) (fuel : Nat) : Forward (Parse.commaSeparated x fuel) := by
  induction fuel with
  | zero => exact exhausted
  | succ fuel ih =>
    refine bind hx fun first => bind currentKind fun current => ?_
    split
    · exact bind next fun _ => bind ih fun rest => pure (first :: rest)
    · exact pure [first]

theorem untilParen (hx : Forward x) (fuel : Nat) : Forward (Parse.untilParen x fuel) := by
  refine bind currentKind fun current => ?_
  split
  · exact pure []
  · exact commaSeparated hx fuel

end Forward

variable (g : Grammar)

/-! ## Expressions -/

theorem forward_number : Forward number := by
  refine .bind .next fun whole => .bind .get fun c => ?_
  dsimp only
  split
  · refine .bind .next fun _ => .bind .next fun _ => ?_
    split
    · exact .pure _
    · exact .raise _
  · split
    · exact .pure _
    · exact .raise _

theorem forward_primary : Forward primary := by
  refine .bind .get fun c => ?_
  split
  · exact forward_number
  all_goals first | exact .bind .next fun _ => .pure _ | exact .raise _

mutual

theorem forward_expr : ∀ (g : Grammar) (fuel : Nat) (above : Precedence),
    Forward (expr g fuel above)
  | _, 0, _ => .exhausted
  | g, fuel + 1, above => by
    rw [expr]
    refine .bind .currentKind fun kind => ?_
    split
    · exact .fail _
    · next rule _ =>
      exact .bind (forward_startExpr g fuel rule) fun left => forward_extendExpr g fuel above left

theorem forward_startExpr : ∀ (g : Grammar) (fuel : Nat) (rule : StartRule),
    Forward (startExpr g fuel rule)
  | _, 0, _ => .exhausted
  | _, _ + 1, .primary => forward_primary
  | g, fuel + 1, .operator => forward_unaryExpr g fuel
  | g, fuel + 1, .group => forward_groupExpr g fuel

theorem forward_extendExpr : ∀ (g : Grammar) (fuel : Nat) (above : Precedence) (left : Expr),
    Forward (extendExpr g fuel above left)
  | _, 0, _, _ => .exhausted
  | g, fuel + 1, above, left => by
    rw [extendExpr]
    refine .bind .currentKind fun kind => ?_
    split
    · exact .pure left
    · next precedence rule _ =>
      split
      · exact .bind (forward_followExpr g fuel precedence rule left) fun left =>
          forward_extendExpr g fuel above left
      · exact .pure left

theorem forward_followExpr : ∀ (g : Grammar) (fuel : Nat) (precedence : Precedence)
    (rule : FollowRule) (left : Expr), Forward (followExpr g fuel precedence rule left)
  | _, 0, _, _, _ => .exhausted
  | g, fuel + 1, precedence, .operator, left => forward_binaryExpr g fuel precedence left
  | g, fuel + 1, _, .call, left => forward_callExpr g fuel left

theorem forward_unaryExpr : ∀ (g : Grammar) (fuel : Nat), Forward (unaryExpr g fuel)
  | _, 0 => .exhausted
  | g, fuel + 1 => by
    rw [unaryExpr]
    refine .bind .next fun operator => .bind .get fun c => ?_
    split
    · exact .bind .next fun magnitude => .pure _
    · exact .bind (forward_expr g fuel .unary) fun operand => .pure _

theorem forward_groupExpr : ∀ (g : Grammar) (fuel : Nat), Forward (groupExpr g fuel)
  | _, 0 => .exhausted
  | g, fuel + 1 => by
    rw [groupExpr]
    exact .bind .next fun _ => .bind (forward_expr g fuel .lowest) fun inner =>
      .bind (.expectFor _ _) fun _ => .pure inner

theorem forward_binaryExpr : ∀ (g : Grammar) (fuel : Nat) (precedence : Precedence) (left : Expr),
    Forward (binaryExpr g fuel precedence left)
  | _, 0, _, _ => .exhausted
  | g, fuel + 1, precedence, left => by
    rw [binaryExpr]
    refine .bind .next fun operator => ?_
    split
    · exact .raise _
    · exact .bind (forward_expr g fuel precedence) fun right => .pure _

theorem forward_callExpr : ∀ (g : Grammar) (fuel : Nat) (callee : Expr),
    Forward (callExpr g fuel callee)
  | _, 0, _ => .exhausted
  | g, fuel + 1, callee => by
    rw [callExpr]
    exact .bind .next fun _ => .bind (.untilParen (forward_expr g fuel .lowest) fuel)
      fun arguments => .bind (.expectFor _ _) fun close => .pure _

end

/-! ## Types -/

theorem forward_nameType : Forward nameType := .bind (.expect _) fun _ => .pure _

theorem forward_deducedType : Forward deducedType := .bind (.expect _) fun _ => .pure _

mutual

theorem forward_type : ∀ (g : Grammar) (fuel : Nat), Forward (type g fuel)
  | _, 0 => .exhausted
  | g, fuel + 1 => by
    rw [type]
    refine .bind .currentKind fun kind => ?_
    split
    · exact forward_nameType
    · exact forward_pointerType g fuel
    · exact forward_deducedType
    · exact .fail _

theorem forward_pointerType : ∀ (g : Grammar) (fuel : Nat), Forward (pointerType g fuel)
  | _, 0 => .exhausted
  | g, fuel + 1 => by
    rw [pointerType]
    exact .bind (.expect _) fun _ => .bind (forward_type g fuel) fun t => .pure _

end

theorem forward_explicitType (fuel : Nat) (message : String) :
    Forward (explicitType g fuel message) := by
  refine .bind .currentKind fun kind => ?_
  split
  · exact .fail message
  · refine .bind (forward_type g fuel) fun t => ?_
    split
    · exact .fail message
    · exact .pure t

/-! ## Statements without blocks -/

theorem forward_valueAfter (fuel : Nat) (sign : TokenKind) : Forward (valueAfter g fuel sign) := by
  refine .bind (.skip sign) fun found => ?_
  split
  · exact .bind (forward_expr g fuel .lowest) fun value => .pure _
  · exact .pure none

theorem forward_bindingType (fuel : Nat) : Forward (bindingType g fuel) :=
  .bind (.skip _) fun _ => .bind (forward_type g fuel) fun _ => .pure _

theorem forward_typeAndValue (fuel : Nat) : Forward (typeAndValue g fuel) := by
  refine .bind (.skip _) fun found => ?_
  split
  · exact .bind (forward_expr g fuel .lowest) fun value => .pure _
  · exact .bind (.expect _) fun _ => .bind (forward_bindingType g fuel) fun type =>
      .bind (forward_valueAfter g fuel _) fun value => .pure _

theorem forward_varDecl (fuel : Nat) : Forward (varDecl g fuel) :=
  .bind (.expect _) fun _ => .bind (forward_typeAndValue g fuel) fun _ =>
    .bind (.expect _) fun _ => .bind (.spanFrom _) fun _ => .pure _

theorem forward_assignment (fuel : Nat) : Forward (assignment g fuel) :=
  .bind (.expect _) fun _ => .bind (.expect _) fun _ =>
    .bind (forward_expr g fuel .lowest) fun _ => .bind (.expect _) fun _ =>
      .bind (.spanFrom _) fun _ => .pure _

theorem forward_callStmt (fuel : Nat) : Forward (callStmt g fuel) := by
  refine .bind .get fun c => .bind (forward_expr g fuel .lowest) fun e => ?_
  split
  · exact .bind (.expect _) fun _ => .bind (.spanFrom _) fun _ => .pure _
  · exact .fail _

theorem forward_identifierStmt (fuel : Nat) : Forward (identifierStmt g fuel) := by
  refine .bind (.peekKind 1) fun first => .bind (.peekKind 2) fun second => ?_
  split
  · exact .bind .next fun _ => .bind .next fun _ => .fail _
  · exact .bind (forward_varDecl g fuel) fun decl => .pure _
  · exact .bind (forward_varDecl g fuel) fun decl => .pure _
  · exact forward_assignment g fuel
  · exact forward_callStmt g fuel

theorem forward_optionalValue (fuel : Nat) : Forward (optionalValue g fuel) := by
  refine .bind .currentKind fun kind => ?_
  split
  · exact .pure none
  · exact .bind (forward_expr g fuel .lowest) fun value => .pure _

theorem forward_returnStmt (fuel : Nat) : Forward (returnStmt g fuel) :=
  .bind .next fun _ => .bind (forward_optionalValue g fuel) fun _ =>
    .bind (.expect _) fun _ => .bind (.spanFrom _) fun _ => .pure _

/-! ## Statements with blocks -/

theorem forward_untilClose {item : Parse Stmt} (h : Forward item) (fuel : Nat) :
    Forward (untilClose item fuel) := by
  induction fuel with
  | zero => exact .exhausted
  | succ fuel ih =>
    rw [untilClose]
    refine .bind .currentKind fun kind => ?_
    split
    · exact .pure []
    · exact .fail _
    · exact .bind h fun first => .bind ih fun rest => .pure _

mutual

theorem forward_stmt : ∀ (g : Grammar) (fuel : Nat), Forward (stmt g fuel)
  | _, 0 => .exhausted
  | g, fuel + 1 => by
    rw [stmt]
    refine .bind .currentKind fun kind => ?_
    split
    · exact .fail _
    · exact forward_identifierStmt g fuel
    · exact forward_ifStmt g fuel
    · exact forward_whileStmt g fuel
    · exact forward_returnStmt g fuel

theorem forward_block : ∀ (g : Grammar) (fuel : Nat), Forward (block g fuel)
  | _, 0 => .exhausted
  | g, fuel + 1 => by
    rw [block]
    exact .bind (.expectFor _ _) fun _ => .bind (forward_untilClose (forward_stmt g fuel) fuel)
      fun _ => .bind (.expect _) fun _ => .bind (.spanFrom _) fun _ => .pure _

theorem forward_ifStmt : ∀ (g : Grammar) (fuel : Nat), Forward (ifStmt g fuel)
  | _, 0 => .exhausted
  | g, fuel + 1 => by
    rw [ifStmt]
    exact .bind .next fun _ => .bind (forward_expr g fuel .lowest) fun _ =>
      .bind (forward_block g fuel) fun _ => .bind (forward_elseBlock g fuel) fun _ =>
        .bind (.spanFrom _) fun _ => .pure _

theorem forward_elseBlock : ∀ (g : Grammar) (fuel : Nat), Forward (elseBlock g fuel)
  | _, 0 => .exhausted
  | g, fuel + 1 => by
    rw [elseBlock]
    refine .bind (.skip _) fun found => ?_
    split
    · refine .bind .currentKind fun kind => ?_
      split
      · exact .bind (forward_ifStmt g fuel) fun nested => .pure _
      · exact forward_block g fuel
    · exact .bind .get fun c => .pure _

theorem forward_whileStmt : ∀ (g : Grammar) (fuel : Nat), Forward (whileStmt g fuel)
  | _, 0 => .exhausted
  | g, fuel + 1 => by
    rw [whileStmt]
    exact .bind .next fun _ => .bind (forward_expr g fuel .lowest) fun _ =>
      .bind (forward_block g fuel) fun _ => .bind (.spanFrom _) fun _ => .pure _

end

/-! ## Definitions -/

theorem forward_parameter (fuel : Nat) : Forward (parameter g fuel) :=
  .bind (.expectFor _ _) fun _ => .bind (.expect _) fun _ => .bind (.skip _) fun _ =>
    .bind (forward_explicitType g fuel _) fun _ => .bind (.spanFrom _) fun _ => .pure _

theorem forward_function (fuel : Nat) : Forward (function g fuel) :=
  .bind (.expect _) fun _ => .bind (.expect _) fun _ => .bind (.expect _) fun _ =>
    .bind (.untilParen (forward_parameter g fuel) fuel) fun _ =>
    .bind (.expectFor _ _) fun _ => .bind (.expectFor _ _) fun _ =>
    .bind (forward_explicitType g fuel _) fun _ => .bind (.expectFor _ _) fun _ =>
    .bind (forward_block g fuel) fun _ => .bind (.skip _) fun _ =>
    .bind (.spanFrom _) fun _ => .pure _

theorem forward_definition (fuel : Nat) (program : Program) :
    Forward (definition g fuel program) := by
  refine .bind .currentKind fun kind => ?_
  split
  · refine .bind (.peekKind 1) fun first => .bind (.peekKind 2) fun second => ?_
    split
    · exact .bind (forward_function g fuel) fun f => .pure _
    · exact .bind (forward_varDecl g fuel) fun decl => .pure _
    · exact .bind (forward_varDecl g fuel) fun decl => .pure _
    · exact .bind .next fun _ => .fail _
  · exact .fail _

theorem forward_definitions (fuel : Nat) (program : Program) :
    Forward (definitions g fuel program) := by
  induction fuel generalizing program with
  | zero => exact .exhausted
  | succ fuel ih =>
    rw [definitions]
    refine .bind .get fun c => ?_
    split
    · exact .bind (forward_definition g fuel program) ih
    · exact .pure program

/-! ## All of them -/

/-- The computations of the grammar, with any rules, any fuel and any other arguments. -/
inductive Called : {α : Type} → Parse α → Prop
  | next : Called next
  | expect (kind : TokenKind) : Called (expect kind)
  | expectFor (kind : TokenKind) (message : String) : Called (expectFor kind message)
  | skip (kind : TokenKind) : Called (skip kind)
  | commaSeparated {α : Type} {item : Parse α} (called : Called item) (fuel : Nat) :
    Called (commaSeparated item fuel)
  | untilParen {α : Type} {item : Parse α} (called : Called item) (fuel : Nat) :
    Called (untilParen item fuel)
  | untilClose {item : Parse Stmt} (called : Called item) (fuel : Nat) :
    Called (untilClose item fuel)
  | number : Called number
  | primary : Called primary
  | expr (fuel : Nat) (above : Precedence) : Called (expr g fuel above)
  | startExpr (fuel : Nat) (rule : StartRule) : Called (startExpr g fuel rule)
  | extendExpr (fuel : Nat) (above : Precedence) (left : Expr) :
    Called (extendExpr g fuel above left)
  | followExpr (fuel : Nat) (precedence : Precedence) (rule : FollowRule) (left : Expr) :
    Called (followExpr g fuel precedence rule left)
  | unaryExpr (fuel : Nat) : Called (unaryExpr g fuel)
  | groupExpr (fuel : Nat) : Called (groupExpr g fuel)
  | binaryExpr (fuel : Nat) (precedence : Precedence) (left : Expr) :
    Called (binaryExpr g fuel precedence left)
  | callExpr (fuel : Nat) (callee : Expr) : Called (callExpr g fuel callee)
  | nameType : Called nameType
  | deducedType : Called deducedType
  | type (fuel : Nat) : Called (type g fuel)
  | pointerType (fuel : Nat) : Called (pointerType g fuel)
  | explicitType (fuel : Nat) (message : String) : Called (explicitType g fuel message)
  | valueAfter (fuel : Nat) (sign : TokenKind) : Called (valueAfter g fuel sign)
  | bindingType (fuel : Nat) : Called (bindingType g fuel)
  | typeAndValue (fuel : Nat) : Called (typeAndValue g fuel)
  | varDecl (fuel : Nat) : Called (varDecl g fuel)
  | assignment (fuel : Nat) : Called (assignment g fuel)
  | callStmt (fuel : Nat) : Called (callStmt g fuel)
  | identifierStmt (fuel : Nat) : Called (identifierStmt g fuel)
  | optionalValue (fuel : Nat) : Called (optionalValue g fuel)
  | returnStmt (fuel : Nat) : Called (returnStmt g fuel)
  | stmt (fuel : Nat) : Called (stmt g fuel)
  | block (fuel : Nat) : Called (block g fuel)
  | ifStmt (fuel : Nat) : Called (ifStmt g fuel)
  | elseBlock (fuel : Nat) : Called (elseBlock g fuel)
  | whileStmt (fuel : Nat) : Called (whileStmt g fuel)
  | parameter (fuel : Nat) : Called (parameter g fuel)
  | function (fuel : Nat) : Called (function g fuel)
  | definition (fuel : Nat) (program : Program) : Called (definition g fuel program)
  | definitions (fuel : Nat) (program : Program) : Called (definitions g fuel program)

/-- **Parsing only moves forward**, whatever is parsed and however it ends. -/
theorem Called.forward {g : Grammar} {α : Type} {x : Parse α} (h : Called g x) : Forward x := by
  induction h with
  | next => exact .next
  | expect kind => exact .expect kind
  | expectFor kind message => exact .expectFor kind message
  | skip kind => exact .skip kind
  | commaSeparated _ fuel ih => exact .commaSeparated ih fuel
  | untilParen _ fuel ih => exact .untilParen ih fuel
  | untilClose _ fuel ih => exact forward_untilClose ih fuel
  | number => exact forward_number
  | primary => exact forward_primary
  | expr fuel above => exact forward_expr g fuel above
  | startExpr fuel rule => exact forward_startExpr g fuel rule
  | extendExpr fuel above left => exact forward_extendExpr g fuel above left
  | followExpr fuel precedence rule left => exact forward_followExpr g fuel precedence rule left
  | unaryExpr fuel => exact forward_unaryExpr g fuel
  | groupExpr fuel => exact forward_groupExpr g fuel
  | binaryExpr fuel precedence left => exact forward_binaryExpr g fuel precedence left
  | callExpr fuel callee => exact forward_callExpr g fuel callee
  | nameType => exact forward_nameType
  | deducedType => exact forward_deducedType
  | type fuel => exact forward_type g fuel
  | pointerType fuel => exact forward_pointerType g fuel
  | explicitType fuel message => exact forward_explicitType g fuel message
  | valueAfter fuel sign => exact forward_valueAfter g fuel sign
  | bindingType fuel => exact forward_bindingType g fuel
  | typeAndValue fuel => exact forward_typeAndValue g fuel
  | varDecl fuel => exact forward_varDecl g fuel
  | assignment fuel => exact forward_assignment g fuel
  | callStmt fuel => exact forward_callStmt g fuel
  | identifierStmt fuel => exact forward_identifierStmt g fuel
  | optionalValue fuel => exact forward_optionalValue g fuel
  | returnStmt fuel => exact forward_returnStmt g fuel
  | stmt fuel => exact forward_stmt g fuel
  | block fuel => exact forward_block g fuel
  | ifStmt fuel => exact forward_ifStmt g fuel
  | elseBlock fuel => exact forward_elseBlock g fuel
  | whileStmt fuel => exact forward_whileStmt g fuel
  | parameter fuel => exact forward_parameter g fuel
  | function fuel => exact forward_function g fuel
  | definition fuel program => exact forward_definition g fuel program
  | definitions fuel program => exact forward_definitions g fuel program

end Parse

end TypedImp
