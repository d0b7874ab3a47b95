/-!
# Blank characters

The characters that count as white space: the white space of Unicode and the four information
separators. Trimming removes them at both ends of a text.
-/

namespace EquationStudio

/-- The code points of the blank characters. -/
def blankCodes : List Nat := [
   0x9, 0xa, 0xb, 0xc, 0xd, 0x1c, 0x1d, 0x1e, 0x1f, 0x20, 0x85, 0xa0, 0x1680, 0x2000, 0x2001,
   0x2002, 0x2003, 0x2004, 0x2005, 0x2006, 0x2007, 0x2008, 0x2009, 0x200a, 0x2028, 0x2029, 0x202f,
   0x205f, 0x3000]

/-- A character that counts as white space. -/
def isBlank (c : Char) : Bool := blankCodes.contains c.toNat

/-- The characters without those at both ends that satisfy `p`. -/
def trimEnds (p : Char → Bool) (cs : List Char) : List Char :=
  ((cs.dropWhile p).reverse.dropWhile p).reverse

/-- The text without blank characters at its ends. -/
def trimBlank (s : String) : String := String.ofList (trimEnds isBlank s.toList)

/-- A text of blank characters only. -/
def isBlankText (s : String) : Bool := s.toList.all isBlank

/-- Capital letters of the Latin alphabet made small; all else stays. -/
def lowerLatin (s : String) : String := s.map Char.toLower

end EquationStudio
