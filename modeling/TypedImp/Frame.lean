import TypedImp.Value

/-!
# Frames

While a program runs, variables live in frames.  There is always the frame of the globals, with
number one; further frames are stacked on it, numbered from two.  Every frame above the globals
names the frame in which the search for a name goes on: the globals for the body of a function, the
frame around it for a nested block.  Zero names no frame.

* `FrameStack.initial`, `FrameStack.push`, `FrameStack.pop`: the stack.
* `FrameStack.chain`: the frames that a name is looked for in.
* `FrameStack.bind`, `FrameStack.get?`, `FrameStack.set?`: the variables.
-/

namespace TypedImp

/-- Variables and their values, the latest first. -/
abbrev Bindings := List (String × Value)

namespace Bindings

/-- The value of the latest variable of a name. -/
def get? (b : Bindings) (name : String) : Option Value :=
  (b.find? fun entry => entry.1 = name).map fun entry => entry.2

/-- Whether there is a variable of a name. -/
def binds (b : Bindings) (name : String) : Bool := b.any fun entry => entry.1 = name

/-- Gives the latest variable of a name a new value. -/
def set (name : String) (value : Value) : Bindings → Bindings
  | [] => []
  | entry :: b => if entry.1 = name then (name, value) :: b else entry :: set name value b

end Bindings

/-- A frame above that of the globals. -/
structure Frame where
  /-- The number of the frame in which the search for a name goes on. -/
  parent : Nat
  bindings : Bindings
deriving DecidableEq, Repr

namespace Frame

/-- Changes the variables of a frame. -/
def modify (change : Bindings → Bindings) (f : Frame) : Frame :=
  { f with bindings := change f.bindings }

end Frame

/-- The frames of a running program. -/
structure FrameStack where
  globals : Bindings
  /-- The frames with the numbers two, three and so on. -/
  locals : Array Frame
deriving DecidableEq, Repr

namespace FrameStack

/-- The number of the frame of the globals. -/
def globalId : Nat := 1

/-- The stack with no variable and no frame but that of the globals. -/
def initial : FrameStack := ⟨[], #[]⟩

/-- Number of frames, with the one that zero stands for. -/
def depth (s : FrameStack) : Nat := s.locals.size + 2

/-- The number of the frame that was pushed last. -/
def active (s : FrameStack) : Nat := s.locals.size + 1

/-- Pushes a frame without variables. -/
def push (s : FrameStack) (parent : Nat) : FrameStack :=
  { s with locals := s.locals.push ⟨parent, []⟩ }

/-- Pops the active frame; that of the globals stays. -/
def pop (s : FrameStack) : FrameStack := { s with locals := s.locals.pop }

/-- The variables of a frame. -/
def bindings? (s : FrameStack) : Nat → Option Bindings
  | 0 => none
  | 1 => some s.globals
  | n + 2 => s.locals[n]?.map Frame.bindings

/-- The frame in which the search for a name goes on; zero behind the globals. -/
def parent (s : FrameStack) : Nat → Nat
  | n + 2 => (s.locals[n]?.map Frame.parent).getD 0
  | _ => 0

/-- Changes the variables of a frame. -/
def modify (s : FrameStack) (change : Bindings → Bindings) : Nat → FrameStack
  | 0 => s
  | 1 => { s with globals := change s.globals }
  | n + 2 => { s with locals := s.locals.modify n (Frame.modify change) }

/-- The first `fuel` frames of a search that starts in a frame. -/
def chainFrom (s : FrameStack) : (fuel : Nat) → (id : Nat) → List Nat
  | 0, _ => []
  | fuel + 1, id =>
    match s.bindings? id with
    | none => []
    | some _ => id :: chainFrom s fuel (s.parent id)

/-- The frames that a name is looked for in, nearest first.  No frame occurs twice, so there are at
most as many as on the stack. -/
def chain (s : FrameStack) : List Nat := s.chainFrom s.depth s.active

/-- Whether a frame has a variable of a name. -/
def bindsIn (s : FrameStack) (name : String) (id : Nat) : Bool :=
  match s.bindings? id with
  | none => false
  | some b => b.binds name

/-- The nearest frame with a variable of a name. -/
def frameOf? (s : FrameStack) (name : String) : Option Nat := s.chain.find? (s.bindsIn name)

/-- Adds a variable to the active frame.  It hides an earlier one of its name. -/
def bind (s : FrameStack) (name : String) (value : Value) : FrameStack :=
  s.modify (fun b => (name, value) :: b) s.active

/-- The value of the nearest variable of a name. -/
def get? (s : FrameStack) (name : String) : Option Value :=
  (s.frameOf? name).bind fun id => (s.bindings? id).bind fun b => b.get? name

/-- Gives the nearest variable of a name a new value, if there is one. -/
def set? (s : FrameStack) (name : String) (value : Value) : Option FrameStack :=
  (s.frameOf? name).map fun id => s.modify (Bindings.set name value) id

end FrameStack

end TypedImp
