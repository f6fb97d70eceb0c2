import Formula.Failure
import Formula.Scope.Bindings

/-! # Calling context

The frames of the caller's call chain. Depth `2` is the innermost frame; the depths below it stand
for the evaluation itself, which binds nothing. -/

namespace Formula

/-- The bindings visible at one level of a call chain. -/
structure Frame where
  locals : Bindings := .empty
  globals : Bindings := .empty

/-- Frames, innermost first. -/
structure CallStack where
  frames : List Frame := []

namespace CallStack

/-- The depth of the innermost frame. -/
def firstDepth : Nat := 2

def size (s : CallStack) : Nat := s.frames.length

def isEmpty (s : CallStack) : Bool := s.frames.isEmpty

/-- Enters a new innermost frame. -/
def push (s : CallStack) (frame : Frame) : CallStack := ⟨frame :: s.frames⟩

/-- Leaves the innermost frame. -/
def pop (s : CallStack) : Option Frame × CallStack := (s.frames.head?, ⟨s.frames.tail⟩)

/-- The stack with the given frames, outermost first. -/
def ofList (frames : List Frame) : CallStack := ⟨frames.reverse⟩

/-- The frame at a depth, if the depth stands for a frame. -/
def frameAt (s : CallStack) (depth : Nat) : Except Failure (Option Frame) :=
  if depth < firstDepth then
    .ok none
  else
    match s.frames[depth - firstDepth]? with
    | some frame => .ok (some frame)
    | none => .error (.contextDepth depth s.size)

end CallStack

end Formula
