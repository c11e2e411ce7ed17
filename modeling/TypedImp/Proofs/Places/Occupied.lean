import TypedImp.Syntax.Program
import TypedImp.Token.Basic

/-!
# Trees laid out on tokens

A parsed program is a tree, and each of its nodes was read from a row of neighbouring tokens.  The
span of a node begins with the first of these tokens and ends with the last, and the nodes below it
were read from parts of the row that follow one another.

Rows are given by numbers here, from the first token up to the one behind the last.  Whether two
parts of a row overlap is then a comparison of numbers, and nothing needs to be known about where in
the text the tokens stand.

## The block that is not there

One node was read from no tokens at all: the second block of a choice without `else`.  It has no
statements, and its span is that of the last token of the first block.

* `Node`, `Node.children`, `Program.roots`: programs as trees of nodes of five kinds.
* `Span.Over`: a span from one token to another.
* `Row`: nodes in parts of a row that follow one another.
* `Node.Placed`, `Node.AllPlaced`: a node and its children in the row of the node; the same for all
  nodes below it.
-/

namespace TypedImp

/-! ## Nodes -/

/-- The nodes of a program. -/
inductive Node where
  | function (f : FunDecl)
  | parameter (p : Parameter)
  | block (b : Block Stmt)
  | stmt (s : Stmt)
  | expr (e : Expr)

namespace Node

def span : Node → Span
  | function f => f.span
  | parameter p => p.span
  | block b => b.span
  | stmt s => s.span
  | expr e => e.span

/-- The nodes directly below a node, in the order of the source. -/
def children : Node → List Node
  | function f => f.parameters.map parameter ++ [block f.body]
  | parameter _ => []
  | block b => b.body.map stmt
  | stmt (.call callee arguments callSpan _) => [expr (.call callee arguments callSpan)]
  | stmt (.define decl) => decl.initializer.toList.map expr
  | stmt (.assign _ value _) => [expr value]
  | stmt (.ret value _) => value.toList.map expr
  | stmt (.ifThenElse condition thenBlock elseBlock _) =>
    [expr condition, block thenBlock, block elseBlock]
  | stmt (.whileDo condition body _) => [expr condition, block body]
  | expr (.unary _ operand _) => [expr operand]
  | expr (.binary _ left right _) => [expr left, expr right]
  | expr (.call callee arguments _) => expr callee :: arguments.map expr
  | expr (.number ..) | expr (.string ..) | expr (.bool ..) | expr (.name ..) => []

/-- Whether a node is a choice between two blocks. -/
def isChoice : Node → Bool
  | stmt (.ifThenElse ..) => true
  | _ => false

/-- A node occurs in another one, at any depth. -/
inductive Contains : Node → Node → Prop
  | self (n : Node) : Contains n n
  | deeper {n child m : Node} (mem : child ∈ n.children) (inside : Contains child m) : Contains n m

end Node

/-- The nodes that are in no other node of the program: its globals and functions. -/
def Program.roots (p : Program) : List Node :=
  p.globals.map (fun decl => .stmt (.define decl)) ++ p.functions.map .function

/-! ## Rows -/

section

variable (tokens : List Token)

/-- A span that begins with one token of a row and ends with the last one. -/
inductive Span.Over (s : Span) : Nat → Nat → Prop
  | intro {i k : Nat} {first last : Token} (le : i ≤ k) (first_eq : tokens[i]? = some first)
    (last_eq : tokens[k]? = some last) (visible : last.kind ≠ .endOfInput)
    (start_eq : s.start = first.span.start) (stop_eq : s.stop = last.span.stop) :
    Over s i (k + 1)

/-- Nodes in parts of a row that follow one another.  The predicate says what it means that a node
is in a part of the row. -/
inductive Row (P : Nat → Nat → Node → Prop) : Nat → Nat → List Node → Prop
  | nil {lo hi : Nat} (le : lo ≤ hi) : Row P lo hi []
  | cons {lo i j hi : Nat} {n : Node} {ns : List Node} (le : lo ≤ i) (first : P i j n)
    (rest : Row P j hi ns) : Row P lo hi (n :: ns)

/-- The second block of a choice, between the first one and the end of the choice. -/
inductive ElsePart (P : Nat → Nat → Node → Prop) : Nat → Nat → Block Stmt → Prop
  /-- It stands behind `else`. -/
  | present {i j : Nat} {b : Block Stmt} {word : Token} (word_eq : tokens[i]? = some word)
    (kind_eq : word.kind = .elseWord) (block : P (i + 1) j (.block b)) : ElsePart P i j b
  /-- There is no `else`: the block is empty, and its span is that of the last token before. -/
  | lacking {k : Nat} {b : Block Stmt} {next last : Token} (next_eq : tokens[k + 1]? = some next)
    (kind_ne : next.kind ≠ .elseWord) (last_eq : tokens[k]? = some last) (body_eq : b.body = [])
    (span_eq : b.span = last.span) : ElsePart P (k + 1) (k + 1) b

/-- A node has the span of a row, and its children have those of parts of it. -/
inductive Node.Placed : Nat → Nat → Node → Prop
  | plain {i j : Nat} {n : Node} (notChoice : n.isChoice = false) (extent : n.span.Over tokens i j)
    (row : Row (fun i j n => n.span.Over tokens i j) i j n.children) : Placed i j n
  | choice {i a b j : Nat} {condition : Expr} {thenBlock elseBlock : Block Stmt} {span : Span}
    (extent : span.Over tokens i j)
    (condition_row : Row (fun i j n => n.span.Over tokens i j) i a [.expr condition])
    (then_extent : thenBlock.span.Over tokens a b)
    (else_part : ElsePart tokens (fun i j n => n.span.Over tokens i j) b j elseBlock) :
    Placed i j (.stmt (.ifThenElse condition thenBlock elseBlock span))

/-- A node is placed, and so are all nodes that occur in it. -/
inductive Node.AllPlaced : Node → Prop
  | intro {i j : Nat} {n : Node} (here : n.Placed tokens i j)
    (below : ∀ m ∈ n.children, m.AllPlaced) : AllPlaced n

/-- A node that is placed in a row, with all nodes that occur in it. -/
structure Node.At (i j : Nat) (n : Node) : Prop where
  extent : n.span.Over tokens i j
  all : n.AllPlaced tokens

/-- A node that is placed somewhere in a row, with all nodes that occur in it. -/
def Node.Inside (lo hi : Nat) (n : Node) : Prop :=
  ∃ i j, lo ≤ i ∧ j ≤ hi ∧ n.At tokens i j

end

variable {tokens : List Token}

namespace Span.Over

variable {s t : Span} {i j i' j' : Nat}

theorem lt (h : s.Over tokens i j) : i < j := by
  cases h with
  | intro le => omega

/-- The span of one token. -/
theorem ofToken {token : Token} (h : tokens[i]? = some token) (hkind : token.kind ≠ .endOfInput) :
    token.span.Over tokens i (i + 1) :=
  .intro (Nat.le_refl i) h h hkind rfl rfl

theorem join (hs : s.Over tokens i j) (ht : t.Over tokens i' j') (hle : i ≤ i') :
    (s.join t).Over tokens i j' := by
  cases hs with
  | intro _ first_eq _ _ start_eq _ =>
    cases ht with
    | intro le _ last_eq visible _ stop_eq =>
      exact .intro (Nat.le_trans hle le) first_eq last_eq visible start_eq stop_eq

end Span.Over

namespace Row

variable {P Q : Nat → Nat → Node → Prop} {lo mid hi lo' hi' : Nat} {ns ns' : List Node}

theorem widen (h : Row P lo hi ns) (hlo : lo' ≤ lo) (hhi : hi ≤ hi') : Row P lo' hi' ns := by
  induction h generalizing lo' with
  | nil le => exact .nil (by omega)
  | cons le first _ ih => exact .cons (by omega) first (ih (Nat.le_refl _) hhi)

theorem append (h : Row P lo mid ns) (h' : Row P mid hi ns') : Row P lo hi (ns ++ ns') := by
  induction h with
  | nil le => exact h'.widen le (Nat.le_refl _)
  | cons le first _ ih => exact .cons le first (ih h')

theorem mono (h : Row P lo hi ns) (hPQ : ∀ i j n, P i j n → Q i j n) : Row Q lo hi ns := by
  induction h with
  | nil le => exact .nil le
  | cons le first _ ih => exact .cons le (hPQ _ _ _ first) ih

theorem le_of_lt (h : Row P lo hi ns) (hlt : ∀ i j n, P i j n → i < j) : lo ≤ hi := by
  induction h with
  | nil le => exact le
  | cons le first _ ih =>
    have := hlt _ _ _ first
    omega

/-- Each node of a row is in some part of it. -/
theorem exists_of_mem (h : Row P lo hi ns) (hlt : ∀ i j n, P i j n → i < j) {n : Node}
    (hn : n ∈ ns) : ∃ i j, lo ≤ i ∧ j ≤ hi ∧ P i j n := by
  induction h with
  | nil => cases hn
  | cons le first rest ih =>
    rcases List.mem_cons.mp hn with rfl | hn
    · exact ⟨_, _, le, rest.le_of_lt hlt, first⟩
    · obtain ⟨i, j, hi, hj, hP⟩ := ih hn
      have := hlt _ _ _ first
      exact ⟨i, j, by omega, hj, hP⟩

end Row

theorem ElsePart.le_of_lt {P : Nat → Nat → Node → Prop} {i j : Nat} {b : Block Stmt}
    (h : ElsePart tokens P i j b) (hlt : ∀ i j n, P i j n → i < j) : i ≤ j := by
  cases h with
  | present _ _ block =>
    have := hlt _ _ _ block
    omega
  | lacking => exact Nat.le_refl _

namespace Node

variable {n : Node} {i j lo hi lo' hi' : Nat}

theorem Placed.extent (h : n.Placed tokens i j) : n.span.Over tokens i j := by
  cases h with
  | plain _ extent => exact extent
  | choice extent => exact extent

theorem At.all_of_row {ns : List Node} (h : Row (At tokens) lo hi ns) :
    ∀ n ∈ ns, n.AllPlaced tokens := by
  intro n hn
  obtain ⟨i, j, -, -, hat⟩ := h.exists_of_mem (fun _ _ _ hat => hat.extent.lt) hn
  exact hat.all

/-- A node with the span of a row and with its children in parts of the row. -/
theorem At.plain (hchoice : n.isChoice = false) (hover : n.span.Over tokens i j)
    (hrow : Row (At tokens) i j n.children) : n.At tokens i j :=
  ⟨hover, .intro (.plain hchoice hover (hrow.mono fun _ _ _ hat => hat.extent))
    (all_of_row hrow)⟩

theorem At.inside (h : n.At tokens i j) (hlo : lo ≤ i) (hhi : j ≤ hi) : n.Inside tokens lo hi :=
  ⟨i, j, hlo, hhi, h⟩

theorem Inside.widen (h : n.Inside tokens lo hi) (hlo : lo' ≤ lo) (hhi : hi ≤ hi') :
    n.Inside tokens lo' hi' := by
  obtain ⟨i, j, hi, hj, hat⟩ := h
  exact ⟨i, j, by omega, by omega, hat⟩

theorem Inside.row_cons {ns : List Node} {mid : Nat} (h : n.Inside tokens lo mid)
    (hrest : Row (At tokens) mid hi ns) : Row (At tokens) lo hi (n :: ns) := by
  obtain ⟨i, j, hi, hj, hat⟩ := h
  exact .cons hi hat (hrest.widen hj (Nat.le_refl _))

theorem Inside.row (h : n.Inside tokens lo hi) : Row (At tokens) lo hi [n] :=
  h.row_cons (.nil (Nat.le_refl hi))

/-- The block of an `else` that is not there has the span of a token. -/
theorem At.of_lacking {b : Block Stmt} {k : Nat} {last : Token} {s : Span}
    (hs : s.Over tokens i (k + 1)) (hlast : tokens[k]? = some last) (hbody : b.body = [])
    (hspan : b.span = last.span) : (block b).At tokens k (k + 1) := by
  have hvisible : last.kind ≠ .endOfInput := by
    cases hs with
    | intro _ _ last_eq visible =>
      obtain rfl := Option.some.inj (last_eq.symm.trans hlast)
      exact visible
  have hover : (block b).span.Over tokens k (k + 1) := by
    rw [Node.span, hspan]
    exact .ofToken hlast hvisible
  refine .plain rfl hover ?_
  rw [children, hbody]
  exact .nil (Nat.le_succ k)

/-- A choice, with its condition, its first block and what is behind it. -/
theorem At.choice {condition : Expr} {thenBlock elseBlock : Block Stmt} {s : Span} {a b : Nat}
    (hover : s.Over tokens i j) (hcondition : (expr condition).Inside tokens i a)
    (hthen : (block thenBlock).At tokens a b)
    (helse : ElsePart tokens (At tokens) b j elseBlock) :
    (stmt (.ifThenElse condition thenBlock elseBlock s)).At tokens i j := by
  have hrow := hcondition.row
  have hpart : ElsePart tokens (fun i j n => n.span.Over tokens i j) b j elseBlock ∧
      (block elseBlock).AllPlaced tokens := by
    cases helse with
    | present word_eq kind_eq hblock => exact ⟨.present word_eq kind_eq hblock.extent, hblock.all⟩
    | lacking next_eq kind_ne last_eq body_eq span_eq =>
      exact ⟨.lacking next_eq kind_ne last_eq body_eq span_eq,
        (At.of_lacking hthen.extent last_eq body_eq span_eq).all⟩
  have hextents := hrow.mono fun _ _ _ hat => hat.extent
  refine ⟨hover, .intro (.choice hover hextents hthen.extent hpart.1) ?_⟩
  exact List.forall_mem_cons.mpr ⟨all_of_row hrow _ List.mem_cons_self,
    List.forall_mem_cons.mpr ⟨hthen.all, List.forall_mem_singleton.mpr hpart.2⟩⟩

/-- What holds of all nodes that are placed holds of those that occur in them. -/
theorem AllPlaced.of_contains {m : Node} (h : n.AllPlaced tokens) (hm : n.Contains m) :
    m.AllPlaced tokens := by
  induction hm with
  | self => exact h
  | deeper mem _ ih =>
    cases h with
    | intro _ below => exact ih (below _ mem)

end Node

end TypedImp
