import CrossAssembler.Yaml.Character

/-!
# Block scalars

A block scalar is a run of indented lines below a mark that says how to read
them.  The lines are indented alike, by a number of columns that the mark gives
or that the lines before the first text show.  In a folded scalar a line break
between two lines that begin with no blank reads as a space.

## Main definitions

* `Header`, `Header.ofLine?` — what the line of the mark says.
* `Block` — a block scalar of which a part has been read.
* `Block.beginLine`, `Block.text` — a further line, and the text of the whole.
-/

namespace CrossAssembler
namespace Yaml

/-- What becomes of the line breaks at the end of a block scalar. -/
inductive Chomp where
  /-- None is kept. -/
  | strip
  /-- The first is kept. -/
  | clip
  /-- All are kept. -/
  | keep
  deriving DecidableEq, Repr

/-- What the line of the mark says. -/
structure Header where
  /-- What becomes of the line breaks at the end. -/
  chomp : Chomp
  /-- By how many columns the lines are indented against what surrounds them. -/
  increment : Option Nat
  deriving DecidableEq, Repr

namespace Header

/-- How a sign says what becomes of the line breaks at the end. -/
def chomp? (c : Char) : Option Chomp :=
  if c = '+' then some .keep else if c = '-' then some .strip else none

/-- The header at the head of a line, and what follows it.  The sign and the digit
may come in either order.  The digit may not be zero. -/
def read? : List Char → Option (Header × List Char)
  | [] => some (⟨.clip, none⟩, [])
  | c :: rest =>
    match chomp? c with
    | some chomp =>
      match rest with
      | d :: rest' =>
        if d = '0' then none
        else if d.isDigit then some (⟨chomp, some (d.toNat - '0'.toNat)⟩, rest')
        else some (⟨chomp, none⟩, rest)
      | [] => some (⟨chomp, none⟩, [])
    | none =>
      if c = '0' then none
      else if c.isDigit then
        let increment := some (c.toNat - '0'.toNat)
        match rest with
        | d :: rest' =>
          match chomp? d with
          | some chomp => some (⟨chomp, increment⟩, rest')
          | none => some (⟨.clip, increment⟩, rest)
        | [] => some (⟨.clip, increment⟩, [])
      else some (⟨.clip, none⟩, c :: rest)

/-- What the line of the mark says, from behind the mark.  A comment may follow. -/
def ofLine? (line : List Char) : Option Header :=
  (read? line).bind fun (header, rest) => if onlyComment rest then some header else none

end Header

/-- A block scalar of which a part has been read. -/
structure Block where
  /-- Whether line breaks between the lines are folded. -/
  folded : Bool
  /-- What becomes of the line breaks at the end. -/
  chomp : Chomp
  /-- The column in which the lines begin, once it is known. -/
  column : Option Nat
  /-- The least column in which they may begin. -/
  least : Nat
  /-- The rightmost column in which a line so far has ended its leading blanks. -/
  widest : Nat
  /-- The text of the lines so far, last character first. -/
  lines : List Char
  /-- Whether a line break follows the last line. -/
  broken : Bool
  /-- The number of empty lines after it. -/
  empty : Nat
  /-- Whether the last line began with a blank. -/
  indented : Bool
  deriving DecidableEq, Repr

namespace Block

/-- A block scalar below a header, where `surrounding` is the column of the block
collection around it. -/
def start (folded : Bool) (header : Header) (surrounding : Option Nat) : Block where
  folded := folded
  chomp := header.chomp
  column := header.increment.map (surrounding.getD 0 + ·)
  least := match surrounding with
    | some column => column + 1
    | none => 1
  widest := 0
  lines := []
  broken := false
  empty := 0
  indented := false

/-- Whether a column is left of where the lines begin, or that is not known yet. -/
def beforeLines (b : Block) (column : Nat) : Bool := b.column.all (column < ·)

/-- A line whose leading blanks end in a column. -/
def widen (b : Block) (column : Nat) : Block := { b with widest := max b.widest column }

/-- The column in which the lines begin. -/
def lineColumn (b : Block) : Nat := b.column.getD (max b.widest b.least)

/-- What the breaks between the last line and the next one read as, last character
first.  The next line begins with a blank or not. -/
def between (b : Block) (indented : Bool) : List Char :=
  let kept := List.replicate b.empty '\n'
  if b.folded && b.broken && !b.indented && !indented then
    if b.empty = 0 then [' '] else kept
  else if b.broken then kept ++ ['\n']
  else kept

/-- The first character of a line. -/
def beginLine (b : Block) (c : Char) : Block :=
  { b with
    column := some b.lineColumn
    lines := c :: (b.between (isBlank c) ++ b.lines)
    broken := false
    empty := 0
    indented := isBlank c }

/-- A further character of a line. -/
def push (b : Block) (c : Char) : Block := { b with lines := c :: b.lines }

/-- The text of the whole. -/
def text (b : Block) : List Char :=
  let last := if b.broken then ['\n'] else []
  let tail := match b.chomp with
    | .strip => []
    | .clip => last
    | .keep => last ++ List.replicate b.empty '\n'
  b.lines.reverse ++ tail

end Block

end Yaml
end CrossAssembler
