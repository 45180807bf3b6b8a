/-
Crossover.Text.Blank — white space as Unicode defines it.

The twenty-five characters with the property `White_Space`, and trimming by them.
-/
namespace Crossover.Text

/-- The characters with the Unicode property `White_Space`. -/
def blanks : List Char :=
  ['\t', '\n', '\x0b', '\x0c', '\r', ' ', '\u0085', '\u00a0', '\u1680',
   '\u2000', '\u2001', '\u2002', '\u2003', '\u2004', '\u2005', '\u2006', '\u2007', '\u2008',
   '\u2009', '\u200a', '\u2028', '\u2029', '\u202f', '\u205f', '\u3000']

def isBlank (c : Char) : Bool :=
  blanks.contains c

/-- The text without the white space before it. -/
def skipBlanks (cs : List Char) : List Char :=
  cs.dropWhile isBlank

/-- The text without the white space around it. -/
def trim (cs : List Char) : List Char :=
  (skipBlanks (skipBlanks cs).reverse).reverse

end Crossover.Text
