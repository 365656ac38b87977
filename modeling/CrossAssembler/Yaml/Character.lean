/-!
# Characters of a YAML text

The classes of characters that the structure of a YAML text depends on.  Only
two characters end a line and only two are blanks within it, whatever else
counts as blank elsewhere.

## Main definitions

* `isBlank`, `isBreak`, `endsWord` — where lines and words end.
* `onlyComment` — whether a line has nothing more to say.
* `isFlowMark` — the characters of the flow structure.
* `isNameChar`, `isUriChar` — what names and tags are made of.
-/

namespace CrossAssembler
namespace Yaml

/-- A blank within a line. -/
def isBlank (c : Char) : Bool := c == ' ' || c == '\t'

/-- A character that ends a line. -/
def isBreak (c : Char) : Bool := c == '\n' || c == '\r'

/-- Whether a word ends before the given rest of the text. -/
def endsWord : List Char → Bool
  | [] => true
  | c :: _ => isBlank c || isBreak c

/-- Whether only blanks and a comment are left of a line. -/
def onlyComment (text : List Char) : Bool :=
  match text.dropWhile isBlank with
  | [] => true
  | c :: _ => c == '#'

/-- A character of the flow structure. -/
def isFlowMark (c : Char) : Bool :=
  c == ',' || c == '[' || c == ']' || c == '\x7b' || c == '\x7d'

/-- Whether the text goes on with a character of the flow structure. -/
def beforeFlowMark : List Char → Bool
  | [] => false
  | c :: _ => isFlowMark c

/-- A character of the name of an anchor, a directive or a tag handle. -/
def isNameChar (c : Char) : Bool := c.isAlphanum || c == '_' || c == '-'

/-- A character of a tag besides the escapes, which begin with a percent sign. -/
def isUriChar (c : Char) : Bool :=
  isNameChar c || ";/?:@&=+$,.!~*'()[]".toList.contains c

/-- The number of characters of the line break that `c` begins before `rest`, less
one: a carriage return and a line feed are one break. -/
def breakTail (c : Char) : List Char → Nat
  | '\n' :: _ => if c = '\r' then 1 else 0
  | _ => 0

end Yaml
end CrossAssembler
