/-!
# Blank characters, words and lines

Source text is cut at blanks.  A blank is a character with the Unicode property
White_Space, twenty-five code points in all, so a no-break space or an
ideographic space separates words exactly as an ordinary space does.  A line
ends at a line feed; a carriage return before it is one more blank.

## Main definitions

* `isBlank` — the White_Space property.
* `words` — the maximal runs of non-blank characters.
* `trim` — a text without the blanks at its two ends.
* `lines` — the pieces between line feeds.
-/

namespace CrossAssembler
namespace Text

/-- Whether the character has the Unicode property White_Space. -/
def isBlank (c : Char) : Bool :=
  let n := c.toNat
  (0x09 ≤ n && n ≤ 0x0d) || n == 0x20 || n == 0x85 || n == 0xa0 || n == 0x1680
    || (0x2000 ≤ n && n ≤ 0x200a) || n == 0x2028 || n == 0x2029 || n == 0x202f || n == 0x205f
    || n == 0x3000

/-- The maximal runs of non-blank characters, in order. -/
def words (text : List Char) : List (List Char) :=
  (text.splitOnP isBlank).filter fun word => !word.isEmpty

/-- The text without the blanks at its two ends. -/
def trim (text : List Char) : List Char :=
  ((text.dropWhile isBlank).reverse.dropWhile isBlank).reverse

/-- The pieces between line feeds.  There is one more piece than there are line
feeds, and the last may be empty. -/
def lines (text : List Char) : List (List Char) := text.splitOn '\n'

end Text
end CrossAssembler
