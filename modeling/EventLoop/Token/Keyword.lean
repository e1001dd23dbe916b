set_option autoImplicit false

namespace EventLoop

inductive Keyword where
  | varWord
  | letWord
  | constWord
  | functionWord
  | returnWord
  | asyncWord
  | awaitWord
  | newWord
  | typeofWord
  | voidWord
  | deleteWord
  | inWord
  | instanceofWord
  | trueWord
  | falseWord
  | nullWord
deriving DecidableEq, Repr, Inhabited

namespace Keyword

def all : List Keyword :=
  [.varWord, .letWord, .constWord, .functionWord, .returnWord, .asyncWord, .awaitWord, .newWord,
    .typeofWord, .voidWord, .deleteWord, .inWord, .instanceofWord, .trueWord, .falseWord,
    .nullWord]

theorem mem_all (keyword : Keyword) : keyword ∈ all := by
  cases keyword <;> decide

def chars : Keyword → List Char
  | .varWord => ['v', 'a', 'r']
  | .letWord => ['l', 'e', 't']
  | .constWord => ['c', 'o', 'n', 's', 't']
  | .functionWord => ['f', 'u', 'n', 'c', 't', 'i', 'o', 'n']
  | .returnWord => ['r', 'e', 't', 'u', 'r', 'n']
  | .asyncWord => ['a', 's', 'y', 'n', 'c']
  | .awaitWord => ['a', 'w', 'a', 'i', 't']
  | .newWord => ['n', 'e', 'w']
  | .typeofWord => ['t', 'y', 'p', 'e', 'o', 'f']
  | .voidWord => ['v', 'o', 'i', 'd']
  | .deleteWord => ['d', 'e', 'l', 'e', 't', 'e']
  | .inWord => ['i', 'n']
  | .instanceofWord => ['i', 'n', 's', 't', 'a', 'n', 'c', 'e', 'o', 'f']
  | .trueWord => ['t', 'r', 'u', 'e']
  | .falseWord => ['f', 'a', 'l', 's', 'e']
  | .nullWord => ['n', 'u', 'l', 'l']

def text (keyword : Keyword) : String := String.ofList keyword.chars

def ofChars? (word : List Char) : Option Keyword := all.find? (·.chars == word)

theorem ofChars?_chars (keyword : Keyword) : ofChars? keyword.chars = some keyword := by
  cases keyword <;> decide

end Keyword

end EventLoop
