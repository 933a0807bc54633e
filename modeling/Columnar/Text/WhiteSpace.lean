/-!
# White space and controls

The Unicode property White_Space, which trimming uses, and the general category Cc, which
escaping uses. Both are fixed by the stability policy of the standard, so the sets are spelled out.
-/

namespace Columnar.Text

/-- The characters with the property White_Space. -/
def isWhiteSpace (c : Char) : Bool :=
  let n := c.toNat
  (9 ≤ n && n ≤ 13) || n == 0x20 || n == 0x85 || n == 0xA0 || n == 0x1680 ||
    (0x2000 ≤ n && n ≤ 0x200A) || n == 0x2028 || n == 0x2029 || n == 0x202F || n == 0x205F ||
    n == 0x3000

/-- The characters of general category Cc. -/
def isControl (c : Char) : Bool :=
  c.toNat < 0x20 || (0x7F ≤ c.toNat && c.toNat < 0xA0)

def trimStart (cs : List Char) : List Char := cs.dropWhile isWhiteSpace

/-- Drops White_Space from both ends. -/
def trim (cs : List Char) : List Char :=
  (trimStart (trimStart cs).reverse).reverse

def isBlank (cs : List Char) : Bool := cs.all isWhiteSpace

end Columnar.Text
