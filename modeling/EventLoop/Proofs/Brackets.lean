import EventLoop.Parsing.Stream
import Mathlib.Data.List.Basic

set_option autoImplicit false

/-!
# Brackets among tokens

Brackets can be checked in two ways: with the kind of every bracket, or only by their number.
-/

namespace EventLoop

def Punctuator.partner? : Punctuator → Option Punctuator
  | .parenOpen => some .parenClose
  | .bracketOpen => some .bracketClose
  | .braceOpen => some .braceClose
  | _ => none

def TokenKind.isBracket : TokenKind → Bool
  | .punctuator mark => mark.isOpening || mark.isClosing
  | _ => false

namespace TokenKind

def delimiters : List TokenKind :=
  .endOfInput :: List.map .punctuator
    [.parenOpen, .parenClose, .bracketOpen, .bracketClose, .braceOpen, .braceClose]

theorem mem_delimiters (kind : TokenKind) : kind ∈ delimiters ↔ kind.isEnd ∨ kind.isBracket := by
  cases kind with
  | punctuator mark =>
    cases mark <;>
      simp [delimiters, isEnd, isBracket, Punctuator.isOpening, Punctuator.isClosing]
  | _ => simp [delimiters, isEnd, isBracket]

theorem plain_of_eq_some {α : Type} {meaning? : TokenKind → Option α} {kind : TokenKind} {value : α}
    (found : meaning? kind = some value)
    (others : delimiters.all fun delimiter => (meaning? delimiter).isNone) :
    kind.isEnd = false ∧ kind.isBracket = false := by
  have outside : kind ∉ delimiters := by
    intro member
    have none := List.all_eq_true.mp others kind member
    rw [found] at none
    cases none
  rwa [mem_delimiters, not_or, Bool.not_eq_true, Bool.not_eq_true] at outside

end TokenKind

/-- The brackets that are open after one more token, last one first. There is no answer when a
closing bracket does not match. -/
def openBracket (opened : List Punctuator) : TokenKind → Option (List Punctuator)
  | .punctuator mark =>
      if mark.isOpening then some (mark :: opened)
      else if mark.isClosing then
        match opened with
        | left :: outer => if left.partner? = some mark then some outer else none
        | [] => none
      else some opened
  | _ => some opened

def openBrackets (opened : List Punctuator) (kinds : List TokenKind) : Option (List Punctuator) :=
  kinds.foldlM openBracket opened

/-- Every bracket has its partner, which is of the same kind, and pairs are nested. -/
def BracketsMatch (kinds : List TokenKind) : Prop := openBrackets [] kinds = some []

instance (kinds : List TokenKind) : Decidable (BracketsMatch kinds) :=
  inferInstanceAs (Decidable (openBrackets [] kinds = some []))

def countBracket (count : Nat) : TokenKind → Option Nat
  | .punctuator mark =>
      if mark.isOpening then some (count + 1)
      else if mark.isClosing then
        match count with
        | outer + 1 => some outer
        | 0 => none
      else some count
  | _ => some count

def openCount (count : Nat) (kinds : List TokenKind) : Option Nat := kinds.foldlM countBracket count

section Steps

variable {kind : TokenKind} {mark : Punctuator}

theorem openBracket_of_not_isBracket (plain : kind.isBracket = false) (opened : List Punctuator) :
    openBracket opened kind = some opened := by
  cases kind <;> simp_all [openBracket, TokenKind.isBracket]

theorem countBracket_of_not_isBracket (plain : kind.isBracket = false) (count : Nat) :
    countBracket count kind = some count := by
  cases kind <;> simp_all [countBracket, TokenKind.isBracket]

theorem countBracket_of_isOpening (opening : mark.isOpening) (count : Nat) :
    countBracket count (.punctuator mark) = some (count + 1) := if_pos opening

theorem countBracket_of_isClosing (opening : ¬mark.isOpening) (closing : mark.isClosing)
    (outer : Nat) : countBracket (outer + 1) (.punctuator mark) = some outer := by
  simp [countBracket, opening, closing]

end Steps

theorem openBracket_frame {opened closed : List Punctuator} {kind : TokenKind}
    (taken : openBracket opened kind = some closed) (outer : List Punctuator) :
    openBracket (opened ++ outer) kind = some (closed ++ outer) := by
  cases kind with
  | punctuator mark =>
    cases opened <;> simp only [openBracket] at taken ⊢ <;> grind
  | _ => simp_all [openBracket]

theorem openBrackets_frame {opened closed : List Punctuator} {kinds : List TokenKind}
    (taken : openBrackets opened kinds = some closed) (outer : List Punctuator) :
    openBrackets (opened ++ outer) kinds = some (closed ++ outer) := by
  induction kinds generalizing opened with
  | nil =>
    cases taken
    rfl
  | cons kind kinds ih =>
    obtain ⟨between, first, later⟩ := Option.bind_eq_some_iff.mp taken
    exact Option.bind_eq_some_iff.mpr ⟨_, openBracket_frame first outer, ih later⟩

theorem countBracket_add {count next : Nat} {kind : TokenKind}
    (taken : countBracket count kind = some next) (more : Nat) :
    countBracket (count + more) kind = some (next + more) := by
  cases kind with
  | punctuator mark =>
    cases count <;> simp only [countBracket] at taken ⊢ <;> grind
  | _ => simp_all [countBracket]

theorem openCount_add {count next : Nat} {kinds : List TokenKind}
    (taken : openCount count kinds = some next) (more : Nat) :
    openCount (count + more) kinds = some (next + more) := by
  induction kinds generalizing count with
  | nil =>
    cases taken
    rfl
  | cons kind kinds ih =>
    obtain ⟨between, first, later⟩ := Option.bind_eq_some_iff.mp taken
    exact Option.bind_eq_some_iff.mpr ⟨_, countBracket_add first more, ih later⟩

theorem countBracket_of_openBracket {opened closed : List Punctuator} {kind : TokenKind}
    (taken : openBracket opened kind = some closed) :
    countBracket opened.length kind = some closed.length := by
  cases kind with
  | punctuator mark =>
    cases opened <;> simp only [openBracket, countBracket] at taken ⊢ <;> grind
  | _ => simp_all [openBracket, countBracket]

/-- A token that the grammar looked at, or a part of the program that it skipped. -/
inductive Piece where
  | token (kind : TokenKind)
  | skipped (part : SkippedPart) (kinds : List TokenKind)

namespace Piece

def kinds : Piece → List TokenKind
  | token kind => [kind]
  | skipped _ kinds => kinds

def outside : Piece → List TokenKind
  | token kind => [kind]
  | skipped .. => []

def inside : Piece → List TokenKind
  | token _ => []
  | skipped _ kinds => kinds

end Piece

/-- What is known of the tokens of a skipped part. Before the braces of a class anything may stand
but an opening brace. -/
def SkippedPart.Allows : SkippedPart → List TokenKind → Prop
  | classHead, kinds => ∀ kind ∈ kinds, kind.isPunctuator .braceOpen = false
  | statement, kinds | group, kinds => openCount 0 kinds = some 0

namespace Piece

inductive Path {σ : Type} (step : σ → Piece → σ → Prop) : σ → List Piece → σ → Prop where
  | nil (state : σ) : Path step state [] state
  | cons {before between after : σ} {piece : Piece} {pieces : List Piece}
      (taken : step before piece between) (later : Path step between pieces after) :
      Path step before (piece :: pieces) after

theorem Path.append {σ : Type} {step : σ → Piece → σ → Prop} {before between after : σ}
    {first second : List Piece} (path : Path step before first between)
    (later : Path step between second after) : Path step before (first ++ second) after := by
  induction path with
  | nil => exact later
  | cons taken _ ih => exact .cons taken (ih later)

inductive Matches : List Punctuator → Piece → List Punctuator → Prop where
  | token {opened closed : List Punctuator} {kind : TokenKind}
      (taken : openBracket opened kind = some closed) : Matches opened (.token kind) closed
  | skipped {opened : List Punctuator} {part : SkippedPart} {kinds : List TokenKind}
      (allowed : part.Allows kinds) : Matches opened (.skipped part kinds) opened

inductive Counts : Nat → Piece → Nat → Prop where
  | token {count next : Nat} {kind : TokenKind} (taken : countBracket count kind = some next) :
      Counts count (.token kind) next

inductive Braceless : Unit → Piece → Unit → Prop where
  | token {kind : TokenKind} (other : kind.isPunctuator .braceOpen = false) :
      Braceless () (.token kind) ()

namespace Path

variable {opened closed : List Punctuator} {pieces : List Piece}

theorem openCount_eq {count next : Nat} (path : Path Counts count pieces next) :
    openCount count (pieces.flatMap kinds) = some next := by
  induction path with
  | nil => rfl
  | cons taken _ ih =>
    cases taken with
    | token taken => exact Option.bind_eq_some_iff.mpr ⟨_, taken, ih⟩

theorem braceless {before after : Unit} (path : Path Braceless before pieces after) :
    ∀ kind ∈ pieces.flatMap kinds, kind.isPunctuator .braceOpen = false := by
  induction path with
  | nil => simp
  | cons taken _ ih =>
    cases taken with
    | token other => exact List.forall_mem_cons.mpr ⟨other, ih⟩

theorem openBrackets_outside (path : Path Matches opened pieces closed) :
    openBrackets opened (pieces.flatMap outside) = some closed := by
  induction path with
  | nil => rfl
  | cons taken _ ih =>
    cases taken with
    | token taken => exact Option.bind_eq_some_iff.mpr ⟨_, taken, ih⟩
    | skipped => exact ih

theorem allows (path : Path Matches opened pieces closed) {part : SkippedPart}
    {kinds : List TokenKind} (member : .skipped part kinds ∈ pieces) : part.Allows kinds := by
  induction path with
  | nil => cases member
  | cons taken _ ih =>
    cases member with
    | head =>
      cases taken with
      | skipped allowed => exact allowed
    | tail _ member => exact ih member

theorem openBrackets_kinds (path : Path Matches opened pieces closed)
    (matched : ∀ piece ∈ pieces, BracketsMatch piece.inside) :
    openBrackets opened (pieces.flatMap kinds) = some closed := by
  induction path with
  | nil => rfl
  | @cons before _ _ _ _ taken _ ih =>
    rw [List.forall_mem_cons] at matched
    cases taken with
    | token taken => exact Option.bind_eq_some_iff.mpr ⟨_, taken, ih matched.2⟩
    | skipped =>
      have skipped := openBrackets_frame matched.1 before
      rw [List.flatMap_cons, openBrackets, List.foldlM_append]
      exact Option.bind_eq_some_iff.mpr ⟨_, skipped, ih matched.2⟩

theorem openCount_kinds (path : Path Matches opened pieces closed)
    (classless : ∀ kinds, .skipped .classHead kinds ∉ pieces) :
    openCount opened.length (pieces.flatMap kinds) = some closed.length := by
  induction path with
  | nil => rfl
  | @cons before _ _ _ _ taken _ ih =>
    have later := ih fun kinds member => classless kinds (List.mem_cons_of_mem _ member)
    cases taken with
    | token taken =>
      exact Option.bind_eq_some_iff.mpr ⟨_, countBracket_of_openBracket taken, later⟩
    | @skipped part kinds allowed =>
      have counted : openCount 0 kinds = some 0 := by
        cases part with
        | classHead => exact absurd List.mem_cons_self (classless kinds)
        | statement | group => exact allowed
      have skipped := openCount_add counted before.length
      rw [Nat.zero_add] at skipped
      rw [List.flatMap_cons, openCount, List.foldlM_append]
      exact Option.bind_eq_some_iff.mpr ⟨_, skipped, later⟩

end Path

end Piece

end EventLoop
