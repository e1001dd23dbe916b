import EventLoop.Text.Classes

set_option autoImplicit false

namespace EventLoop

/-- A place in a source: an offset in UTF-8 bytes, and a line and column that start at one. -/
structure Position where
  offset : Nat
  line : Nat
  column : Nat
deriving DecidableEq, Repr, Inhabited

def Position.origin : Position := ⟨0, 1, 1⟩

def Position.next (position : Position) (c : Char) : Position :=
  if Text.isLineTerminator c then ⟨position.offset + c.utf8Size, position.line + 1, 1⟩
  else ⟨position.offset + c.utf8Size, position.line, position.column + 1⟩

structure Span where
  start : Nat
  stop : Nat
  line : Nat
  column : Nat
deriving DecidableEq, Repr, Inhabited

def Span.between (start : Position) (stop : Nat) : Span :=
  ⟨start.offset, stop, start.line, start.column⟩

def Span.position (span : Span) : Position := ⟨span.start, span.line, span.column⟩

@[simp] theorem Span.position_between (start : Position) (stop : Nat) :
    (Span.between start stop).position = start := rfl

end EventLoop
