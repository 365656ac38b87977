import CrossAssembler.Yaml.BlockScalar
import CrossAssembler.Yaml.Folding
import CrossAssembler.Yaml.Token

/-!
# Cutting a YAML text into tokens

A text is read character by character.  Scalars may be keys, and whether one is
turns out only at the colon behind it.  So the place of every scalar that may be
a key is remembered as a `Candidate`, one for each level of open brackets, and at
the colon the key, and with it perhaps the block mapping that it opens, is put
into the tokens at that place.

Block collections are told by columns: one opens with a key or a dash to the
right of the innermost open one, and it closes with the first token to the left
of its own column.  Within brackets columns mean nothing, with one exception: a
token that stands in the column of the block collection around the brackets and
may be a key has to be one.

## Main definitions

* `Position` — a place in the text.
* `Candidate` — a place that a key may turn out to begin at.
* `Mode` — what the scanner is in the middle of.
* `Scanner` — all that it has to remember.
* `Scanner.step` — one character.
* `tokens?` — the tokens of a text.
-/

namespace CrossAssembler
namespace Yaml

/-! ### Places -/

/-- A place in a text. -/
structure Position where
  /-- The number of characters before it. -/
  index : Nat
  /-- The number of line feeds before it. -/
  line : Nat
  /-- The number of characters between it and the last line feed. -/
  column : Nat
  deriving DecidableEq, Repr

namespace Position

/-- The start of a text. -/
def start : Position := ⟨0, 0, 0⟩

/-- The place behind a character. -/
def next (p : Position) (c : Char) : Position :=
  if c = '\n' then ⟨p.index + 1, p.line + 1, 0⟩ else ⟨p.index + 1, p.line, p.column + 1⟩

end Position

/-- A place that a key may turn out to begin at. -/
structure Candidate where
  /-- The place in the text. -/
  position : Position
  /-- The place among the tokens: the number of tokens before it. -/
  rank : Nat
  /-- Whether there has to be a key. -/
  required : Bool
  deriving DecidableEq, Repr

namespace Candidate

/-- The most characters from the start of a key to its colon. -/
def maxLength : Nat := 1024

/-- Whether a colon at `p` would come too late: it has to stand on the line of the
key, and not too far behind its start. -/
def isStale (k : Candidate) (p : Position) : Bool :=
  k.position.line < p.line || k.position.index + maxLength < p.index

end Candidate

/-- What the scanner is in the middle of.  Texts are kept last character first. -/
inductive Mode where
  /-- Nothing: the next character may begin a token. -/
  | between
  /-- A comment. -/
  | comment
  /-- A directive. -/
  | directive (text : List Char)
  /-- The name of an alias or an anchor. -/
  | name (isAlias : Bool) (text : List Char)
  /-- A tag. -/
  | tag (text : List Char)
  /-- A plain scalar, with the gap behind its last word so far. -/
  | plain (text : List Char) (gap : Gap)
  /-- A scalar between single or double quotes, with such a gap. -/
  | quoted (double : Bool) (text : List Char) (gap : Gap)
  /-- The line of the mark of a block scalar. -/
  | header (folded : Bool) (text : List Char)
  /-- The leading blanks of a line of a block scalar. -/
  | margin (block : Block)
  /-- The text of a line of a block scalar. -/
  | line (block : Block)
  deriving DecidableEq, Repr

/-- All that the scanner has to remember. -/
structure Scanner where
  /-- What it is in the middle of. -/
  mode : Mode
  /-- The number of characters that have been dealt with in advance. -/
  skip : Nat
  /-- The place of the next character. -/
  position : Position
  /-- Whether a key may begin here. -/
  keyAllowed : Bool
  /-- The place where a key may have begun, on this level of brackets. -/
  candidate : Option Candidate
  /-- The same for the levels around this one, innermost first. -/
  outer : List (Option Candidate)
  /-- The columns of the open block collections, innermost first. -/
  columns : List Nat
  /-- The index behind the last quoted scalar. -/
  quoteEnd : Option Nat
  /-- The tokens so far, last one first. -/
  emitted : List Token
  deriving DecidableEq, Repr

namespace Scanner

/-- The scanner at the start of a text. -/
def start : Scanner where
  mode := .between
  skip := 0
  position := .start
  keyAllowed := true
  candidate := none
  outer := []
  columns := []
  quoteEnd := none
  emitted := []

/-! ### Tokens -/

/-- Put a token behind those so far. -/
def emit (s : Scanner) (t : Token) : Scanner := { s with emitted := t :: s.emitted }

/-- Put a token before all but the first `rank` of those so far. -/
def insert (s : Scanner) (rank : Nat) (t : Token) : Scanner :=
  { s with emitted := s.emitted.insertIdx (s.emitted.length - rank) t }

/-- The number of characters from here on that have been dealt with, besides the
one at hand. -/
def skipping (s : Scanner) (n : Nat) : Scanner := { s with skip := n }

/-- Go over to something else. -/
def enter (s : Scanner) (mode : Mode) : Scanner := { s with mode }

/-! ### Brackets and columns -/

/-- Whether brackets are open. -/
def inFlow (s : Scanner) : Bool := !s.outer.isEmpty

/-- The most brackets that may be open at once. -/
def maxDepth : Nat := 255

/-- The least column of what belongs to the innermost open block collection. -/
def leastColumn (s : Scanner) : Nat :=
  match s.columns with
  | [] => 0
  | column :: _ => column + 1

/-- Close the block collections whose column is `least` or to the right of it. -/
def closeBlocks (s : Scanner) (least : Nat) : Scanner :=
  if s.inFlow then s
  else
    { s with
      columns := s.columns.dropWhile (least ≤ ·)
      emitted := (s.columns.takeWhile (least ≤ ·)).map (fun _ => Token.blockEnd) ++ s.emitted }

/-- Open a block collection in a column, unless it is open already: its first token
goes before all but the first `rank` tokens. -/
def openBlock (s : Scanner) (column rank : Nat) (t : Token) : Scanner :=
  if s.inFlow || column < s.leastColumn then s
  else { s.insert rank t with columns := column :: s.columns }

/-! ### Keys -/

/-- Give up the candidate of this level.  It may have to be a key. -/
def dropCandidate (s : Scanner) : Option Scanner :=
  if s.candidate.any Candidate.required then none else some { s with candidate := none }

/-- Give up the candidates of all levels for which a colon would come too late. -/
def dropStale (s : Scanner) : Option Scanner :=
  let isStale := fun (k : Candidate) => k.isStale s.position
  if (s.candidate :: s.outer).any fun k => k.any fun k => isStale k && k.required then none
  else
    some { s with
      candidate := s.candidate.filter (!isStale ·)
      outer := s.outer.map fun k => k.filter (!isStale ·) }

/-- Remember this place, if a key may begin here. -/
def saveCandidate (s : Scanner) : Option Scanner :=
  if s.keyAllowed then
    s.dropCandidate.map fun s =>
      let required := s.inFlow && s.columns.head? == some s.position.column
      { s with candidate := some ⟨s.position, s.emitted.length, required⟩ }
  else some s

/-- Begin something that may be a key, behind which no key begins. -/
def beginNode (s : Scanner) (mode : Mode) : Option Scanner :=
  s.saveCandidate.map fun s => { s with mode, keyAllowed := false }

/-! ### The single tokens -/

/-- The mark of a document at the head of a text. -/
def documentMark? : List Char → Option Token
  | '-' :: '-' :: '-' :: rest => if endsWord rest then some .documentStart else none
  | '.' :: '.' :: '.' :: rest => if endsWord rest then some .documentEnd else none
  | _ => none

/-- The mark of a document, if one stands here. -/
def markHere? (s : Scanner) (c : Char) (rest : List Char) : Option Token :=
  if s.position.column = 0 then documentMark? (c :: rest) else none

/-- What stands between documents closes everything. -/
def betweenDocuments (s : Scanner) : Option Scanner :=
  (s.closeBlocks 0).dropCandidate.map fun s => { s with keyAllowed := false }

/-- An opening bracket. -/
def openFlow (s : Scanner) (t : Token) : Option Scanner :=
  if s.outer.length < maxDepth then
    s.saveCandidate.map fun s =>
      { s.emit t with keyAllowed := true, candidate := none, outer := s.candidate :: s.outer }
  else none

/-- A closing bracket. -/
def closeFlow (s : Scanner) (t : Token) : Option Scanner :=
  s.dropCandidate.map fun s =>
    match s.outer with
    | [] => { s.emit t with keyAllowed := false }
    | k :: outer => { s.emit t with keyAllowed := false, candidate := k, outer }

/-- A comma. -/
def comma (s : Scanner) : Option Scanner :=
  s.dropCandidate.map fun s => { s.emit .comma with keyAllowed := true }

/-- The dash of a list item, which has no place within brackets. -/
def dash (s : Scanner) : Option Scanner :=
  if s.inFlow || !s.keyAllowed then none
  else
    (s.openBlock s.position.column s.emitted.length .blockList).dropCandidate.map fun s =>
      { s.emit .dash with keyAllowed := true }

/-- The question mark before a key. -/
def questionMark (s : Scanner) : Option Scanner :=
  if s.inFlow then s.dropCandidate.map fun s => { s.emit .key with keyAllowed := false }
  else if s.keyAllowed then
    (s.openBlock s.position.column s.emitted.length .blockMapping).dropCandidate.map fun s =>
      { s.emit .key with keyAllowed := true }
  else none

/-- The colon behind a key.  The key is the candidate, if there is one. -/
def colon (s : Scanner) : Option Scanner :=
  match s.candidate with
  | some k =>
    let s := (s.insert k.rank .key).openBlock k.position.column k.rank .blockMapping
    some { s.emit .value with candidate := none, keyAllowed := false }
  | none =>
    if s.inFlow then some { s.emit .value with keyAllowed := false }
    else if s.keyAllowed then
      let s := s.openBlock s.position.column s.emitted.length .blockMapping
      some { s.emit .value with keyAllowed := true }
    else none

/-- Whether a colon here ends a key. -/
def isColon (s : Scanner) (rest : List Char) : Bool :=
  endsWord rest ||
    (s.inFlow && (beforeFlowMark rest || s.quoteEnd == some s.position.index))

/-- Begin the token that the character `c` begins. -/
def beginToken (s : Scanner) (c : Char) (rest : List Char) : Option Scanner :=
  match s.markHere? c rest with
  | some t => s.betweenDocuments.map fun s => (s.emit t).skipping 2
  | none =>
    if s.position.column = 0 && c == '%' then s.betweenDocuments.map (enter · (.directive []))
    else if c == '[' then s.openFlow .openList
    else if c == '\x7b' then s.openFlow .openMap
    else if c == ']' then s.closeFlow .closeList
    else if c == '\x7d' then s.closeFlow .closeMap
    else if c == ',' then s.comma
    else if c == '-' && endsWord rest then s.dash
    else if c == '?' && endsWord rest then s.questionMark
    else if c == ':' && s.isColon rest then s.colon
    else if c == '*' then s.beginNode (.name true [])
    else if c == '&' then s.beginNode (.name false [])
    else if c == '!' then s.beginNode (.tag [c])
    else if (c == '|' || c == '>') && !s.inFlow then
      s.saveCandidate.map fun s => { s with mode := .header (c == '>') [], keyAllowed := true }
    else if c == '\'' then s.beginNode (.quoted false [] .none)
    else if c == '"' then s.beginNode (.quoted true [] .none)
    else if c == '%' || c == '@' || c == '\x60' then none
    else if isBlank c then s.beginNode (.plain [] (.blanks [c]))
    else s.beginNode (.plain [c] .none)

/-! ### Characters by mode -/

/-- A character between tokens.  A tab is mere space only where no key may begin. -/
def stepBetween (s : Scanner) (c : Char) (rest : List Char) : Option Scanner :=
  if c == ' ' || (c == '\t' && (s.inFlow || !s.keyAllowed)) then some s
  else if isBreak c then some { s with keyAllowed := s.keyAllowed || !s.inFlow }
  else if c == '#' then some (s.enter .comment)
  else s.dropStale.bind fun s => (s.closeBlocks (s.position.column + 1)).beginToken c rest

/-- The first character behind a token. -/
def stepBehind (s : Scanner) (c : Char) (rest : List Char) : Option Scanner :=
  (s.enter .between).stepBetween c rest

/-- Whether the name of an alias or an anchor may end before a character. -/
def endsName (c : Char) : Bool :=
  isBlank c || isBreak c || "?:,]\x7d%@\x60".toList.contains c

/-- The token of a name. -/
def nameToken? (isAlias : Bool) (text : List Char) : Option Token :=
  if text.isEmpty then none
  else some (if isAlias then .alias text.reverse else .anchor text.reverse)

/-- The token of a tag. -/
def tagToken? (text : List Char) : Option Token := (Tag.ofWord? text.reverse).map .tag

/-- The token of a directive. -/
def directiveToken? (text : List Char) : Option Token :=
  if isDirective text.reverse then some .directive else none

/-- Whether a plain scalar ends before the character `c` behind a gap. -/
def endsPlain (s : Scanner) (gap : Gap) (c : Char) (rest : List Char) : Bool :=
  (gap != .none &&
      ((!s.inFlow && s.position.column < s.leastColumn) || (s.markHere? c rest).isSome || c == '#'))
    || (c == ':' && (endsWord rest || (s.inFlow && beforeFlowMark rest)))
    || (s.inFlow && isFlowMark c)

/-- The scanner behind a plain scalar.  A key may begin on a new line. -/
def endPlain (s : Scanner) (text : List Char) (gap : Gap) : Scanner :=
  { s.emit (.scalar .plain text.reverse) with keyAllowed := s.keyAllowed || gap.isLines }

/-- A character of a plain scalar.  No tab may stand in the margin. -/
def stepPlain (s : Scanner) (text : List Char) (gap : Gap) (c : Char) (rest : List Char) :
    Option Scanner :=
  if isBlank c then
    if c == '\t' && gap.isLines && s.position.column < s.leastColumn then none
    else some (s.enter (.plain text (gap.blank c)))
  else if isBreak c then
    some ((s.enter (.plain text gap.lineBreak)).skipping (breakTail c rest))
  else if s.endsPlain gap c rest then (s.endPlain text gap).stepBehind c rest
  else some (s.enter (.plain (c :: gap.fill text) .none))

/-- The scanner behind a quoted scalar. -/
def endQuoted (s : Scanner) (text : List Char) : Scanner :=
  { s.emit (.scalar .literal text.reverse) with
    mode := .between, quoteEnd := some (s.position.index + 1) }

/-- A character of a word between quotes, where `text` is what is before it. -/
def stepQuotedWord (s : Scanner) (double : Bool) (text : List Char) (c : Char) (rest : List Char) :
    Option Scanner :=
  if double then
    if c == '"' then some (s.endQuoted text)
    else if c == '\\' then
      match rest with
      | b :: rest' =>
        if isBreak b then
          some ((s.enter (.quoted double text (.escaped 0))).skipping (1 + breakTail b rest'))
        else
          (escape? rest).map fun (e, n) => (s.enter (.quoted double (e :: text) .none)).skipping n
      | [] => none
    else some (s.enter (.quoted double (c :: text) .none))
  else if c == '\'' then
    if rest.head? == some '\'' then
      some ((s.enter (.quoted double (c :: text) .none)).skipping 1)
    else some (s.endQuoted text)
  else some (s.enter (.quoted double (c :: text) .none))

/-- A character between quotes. -/
def stepQuoted (s : Scanner) (double : Bool) (text : List Char) (gap : Gap) (c : Char)
    (rest : List Char) : Option Scanner :=
  if isBlank c then some (s.enter (.quoted double text (gap.blank c)))
  else if isBreak c then
    some ((s.enter (.quoted double text gap.lineBreak)).skipping (breakTail c rest))
  else if (s.markHere? c rest).isSome then none
  else s.stepQuotedWord double (gap.fill text) c rest

/-- The block scalar below the line of a mark. -/
def block? (s : Scanner) (folded : Bool) (text : List Char) : Option Block :=
  (Header.ofLine? text.reverse).map fun header => .start folded header s.columns.head?

/-- The scanner behind a block scalar. -/
def endBlock (s : Scanner) (b : Block) : Scanner := s.emit (.scalar .literal b.text)

/-- A character of the leading blanks of a line of a block scalar, or the first
behind them. -/
def stepMargin (s : Scanner) (b : Block) (c : Char) (rest : List Char) : Option Scanner :=
  let column := s.position.column
  if c == ' ' && b.beforeLines column then some s
  else
    let b := b.widen column
    if c == '\t' && b.beforeLines column then none
    else if isBreak c then
      some ((s.enter (.margin { b with empty := b.empty + 1 })).skipping (breakTail c rest))
    else if column = b.lineColumn then some (s.enter (.line (b.beginLine c)))
    else (s.endBlock b).stepBehind c rest

/-! ### The whole text -/

/-- What a character does, by what the scanner is in the middle of. -/
def act (s : Scanner) (c : Char) (rest : List Char) : Option Scanner :=
  match s.mode with
  | .between => s.stepBetween c rest
  | .comment => if isBreak c then s.stepBehind c rest else some s
  | .directive text =>
    if isBreak c then (directiveToken? text).bind fun t => (s.emit t).stepBehind c rest
    else some (s.enter (.directive (c :: text)))
  | .name isAlias text =>
    if isNameChar c then some (s.enter (.name isAlias (c :: text)))
    else if endsName c then
      (nameToken? isAlias text).bind fun t => (s.emit t).stepBehind c rest
    else none
  | .tag text =>
    if isBlank c || isBreak c then (tagToken? text).bind fun t => (s.emit t).stepBehind c rest
    else some (s.enter (.tag (c :: text)))
  | .plain text gap => s.stepPlain text gap c rest
  | .quoted double text gap => s.stepQuoted double text gap c rest
  | .header folded text =>
    if isBreak c then
      (s.block? folded text).map fun b => (s.enter (.margin b)).skipping (breakTail c rest)
    else some (s.enter (.header folded (c :: text)))
  | .margin b => s.stepMargin b c rest
  | .line b =>
    if isBreak c then
      some ((s.enter (.margin { b with broken := true })).skipping (breakTail c rest))
    else some (s.enter (.line (b.push c)))

/-- One character, with the characters behind it in view. -/
def step (s : Scanner) (c : Char) (rest : List Char) : Option Scanner :=
  match s.skip with
  | 0 => (s.act c rest).map fun s => { s with position := s.position.next c }
  | n + 1 => some { s with skip := n, position := s.position.next c }

/-- The scanner with what it is in the middle of brought to an end. -/
def complete (s : Scanner) : Option Scanner :=
  match s.mode with
  | .between | .comment => some s
  | .directive text => (directiveToken? text).map s.emit
  | .name isAlias text => (nameToken? isAlias text).map s.emit
  | .tag text => (tagToken? text).map s.emit
  | .plain text gap => some (s.endPlain text gap)
  | .quoted _ _ _ => none
  | .header folded text => (s.block? folded text).map s.endBlock
  | .margin b | .line b => some (s.endBlock b)

/-- All tokens at the end of a text, where no bracket may be open. -/
def finish (s : Scanner) : Option (List Token) :=
  s.complete.bind fun s =>
    if s.inFlow then none else some (s.closeBlocks 0).emitted.reverse

/-- The tokens from a scanner on. -/
def scan (s : Scanner) : List Char → Option (List Token)
  | [] => s.finish
  | c :: rest =>
    match s.step c rest with
    | some s => s.scan rest
    | none => none

end Scanner

/-- The tokens of a text, which a null character ends. -/
def tokens? (text : String) : Option (List Token) :=
  Scanner.start.scan (text.toList.takeWhile (· ≠ '\x00'))

end Yaml
end CrossAssembler
