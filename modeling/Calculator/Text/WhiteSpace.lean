/-!
The white space of Unicode: the characters with the property `White_Space`.
-/

set_option autoImplicit false

namespace Calculator.WhiteSpace

/-- First and last code point of each range. -/
def ranges : List (Nat × Nat) :=
  [(0x9, 0xD), (0x20, 0x20), (0x85, 0x85), (0xA0, 0xA0), (0x1680, 0x1680), (0x2000, 0x200A),
    (0x2028, 0x2029), (0x202F, 0x202F), (0x205F, 0x205F), (0x3000, 0x3000)]

def isMember (character : Char) : Bool :=
  ranges.any fun range => decide (range.1 ≤ character.toNat ∧ character.toNat ≤ range.2)

def strip (text : List Char) : List Char := text.filter fun character => !isMember character

theorem strip_append (left right : List Char) : strip (left ++ right) = strip left ++ strip right :=
  List.filter_append ..

end Calculator.WhiteSpace
