set_option autoImplicit false

namespace EventLoop.Text

abbrev Ranges := List (Nat × Nat)

def Ranges.holds : Ranges → Nat → Bool
  | [], _ => false
  | (first, last) :: rest, code => first ≤ code && (code ≤ last || holds rest code)

@[simp] theorem Ranges.holds_nil (code : Nat) : Ranges.holds [] code = false := rfl

@[simp] theorem Ranges.holds_cons (first last : Nat) (rest : Ranges) (code : Nat) :
    Ranges.holds ((first, last) :: rest) code =
      (decide (first ≤ code) && (decide (code ≤ last) || rest.holds code)) := rfl

end EventLoop.Text
