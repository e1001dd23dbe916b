import EventLoop.Source.Cursor
import EventLoop.Token.Keyword
import EventLoop.Token.Punctuator

set_option autoImplicit false

namespace EventLoop

inductive TokenKind where
  | number (value : Float)
  | string (value : String)
  -- The characters between the backquotes as written, substitutions included.
  | template (raw : String)
  | regexp (pattern flags : String)
  | identifier (name : String)
  | keyword (keyword : Keyword)
  | punctuator (punctuator : Punctuator)
  | unterminated (delimiter : Char)
  | invalid (c : Char)
  | endOfInput
deriving Repr, Inhabited

structure Token where
  kind : TokenKind
  span : Span
  -- A line terminator stands between this token and the one before it.
  newlineBefore : Bool
  text : List Char
deriving Repr, Inhabited

namespace TokenKind

def isEnd : TokenKind → Bool
  | .endOfInput => true
  | _ => false

def isKeyword (kind : TokenKind) (keyword : Keyword) : Bool :=
  match kind with
  | .keyword found => found == keyword
  | _ => false

def isPunctuator (kind : TokenKind) (punctuator : Punctuator) : Bool :=
  match kind with
  | .punctuator found => found == punctuator
  | _ => false

def isSlash (kind : TokenKind) : Bool :=
  kind.isPunctuator .slash || kind.isPunctuator .slashAssign

end TokenKind

def Cursor.tokenTo (start : Cursor) (newlineBefore : Bool) (kind : TokenKind) (after : Cursor) :
    Token × Cursor :=
  ({ kind := kind
     span := .between start.position after.position.offset
     newlineBefore := newlineBefore
     text := start.slice after }, after)

def Cursor.token (cursor : Cursor) (newlineBefore : Bool) (kind : TokenKind) (length : Nat) :
    Token × Cursor :=
  let after := cursor.skip length
  ({ kind := kind
     span := .between cursor.position after.position.offset
     newlineBefore := newlineBefore
     text := cursor.rest.take length }, after)

@[simp] theorem Cursor.token_kind (cursor : Cursor) (newlineBefore : Bool) (kind : TokenKind)
    (length : Nat) : (cursor.token newlineBefore kind length).1.kind = kind := rfl

@[simp] theorem Cursor.token_after (cursor : Cursor) (newlineBefore : Bool) (kind : TokenKind)
    (length : Nat) : (cursor.token newlineBefore kind length).2 = cursor.skip length := rfl

@[simp] theorem Cursor.token_text (cursor : Cursor) (newlineBefore : Bool) (kind : TokenKind)
    (length : Nat) :
    (cursor.token newlineBefore kind length).1.text = cursor.rest.take length := rfl

theorem Cursor.tokenTo_skip (cursor : Cursor) (newlineBefore : Bool) (kind : TokenKind)
    (length : Nat) :
    cursor.tokenTo newlineBefore kind (cursor.skip length) =
      cursor.token newlineBefore kind length := by
  rw [tokenTo, slice_skip, token]

end EventLoop
