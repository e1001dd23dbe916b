set_option autoImplicit false

namespace EventLoop.Text

def unitsOf (c : Char) : List Nat :=
  if c.toNat < 0x10000 then [c.toNat]
  else [0xD800 + (c.toNat - 0x10000) / 0x400, 0xDC00 + (c.toNat - 0x10000) % 0x400]

def units (text : String) : List Nat := text.toList.flatMap unitsOf

def unitCount (text : String) : Nat := (units text).length

/-- Texts are ordered by their code units, so U+E000 stands after every surrogate pair. -/
def unitsBefore (left right : String) : Bool := units left < units right

end EventLoop.Text
