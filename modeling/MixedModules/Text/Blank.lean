/-! Blank characters, and trimming them from the ends of a text.

The table lists the code points with the Unicode property `White_Space`. It is
wider than the ASCII blanks: it has the next-line control, the no-break space and
the ideographic space, and it leaves out the zero-width ones. -/
namespace MixedModules.Text

/-- First and last code point of every run of blanks, in rising order. -/
def blankRuns : List (Nat × Nat) :=
  [(0x9, 0xD), (0x20, 0x20), (0x85, 0x85), (0xA0, 0xA0), (0x1680, 0x1680), (0x2000, 0x200A),
   (0x2028, 0x2029), (0x202F, 0x202F), (0x205F, 0x205F), (0x3000, 0x3000)]

def isBlank (c : Char) : Bool :=
  blankRuns.any fun run => run.1 ≤ c.toNat && c.toNat ≤ run.2

/-- Drops the blanks at both ends. -/
def trim (cs : List Char) : List Char :=
  ((cs.dropWhile isBlank).reverse.dropWhile isBlank).reverse

end MixedModules.Text
