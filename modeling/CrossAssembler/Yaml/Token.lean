import CrossAssembler.Yaml.Tag

/-!
# Tokens of a YAML text

Target files are written in YAML.  A text is first cut into tokens.  The columns
in which lines begin matter only for this: the tokens say by themselves where
block collections begin and end.

## Main definitions

* `Style`, `Scalar` — how a scalar is written, and what is known of it.
* `Token` — what a piece of a text says.
-/

namespace CrossAssembler
namespace Yaml

/-- How a scalar is written. -/
inductive Style where
  /-- Without quotes, on one line or folded over several. -/
  | plain
  /-- Between quotes, or as an indented block of lines.  Such a scalar is text,
  whatever it looks like. -/
  | literal
  deriving DecidableEq, Repr

/-- What is known of a scalar. -/
structure Scalar where
  /-- How it is written. -/
  style : Style
  /-- Its tag, if it has one. -/
  tag : Option Tag
  /-- Its text, with lines folded and escapes replaced. -/
  text : List Char
  deriving DecidableEq, Repr

/-- What a piece of a text says. -/
inductive Token where
  /-- A directive. -/
  | directive
  /-- `---` at the start of a line. -/
  | documentStart
  /-- `...` at the start of a line. -/
  | documentEnd
  /-- A block list begins. -/
  | blockList
  /-- A block mapping begins. -/
  | blockMapping
  /-- The innermost block collection ends. -/
  | blockEnd
  /-- `-` before an item of a block list. -/
  | dash
  /-- A key follows. -/
  | key
  /-- `:` before a value. -/
  | value
  /-- `,` between the parts of a flow collection. -/
  | comma
  /-- `[`. -/
  | openList
  /-- `]`. -/
  | closeList
  /-- An opening brace. -/
  | openMap
  /-- A closing brace. -/
  | closeMap
  /-- `*` and a name: the node that has been given the name. -/
  | alias (name : List Char)
  /-- `&` and a name, which the next node is given. -/
  | anchor (name : List Char)
  /-- The tag of the next node. -/
  | tag (tag : Tag)
  /-- A scalar. -/
  | scalar (style : Style) (text : List Char)
  deriving DecidableEq, Repr

end Yaml
end CrossAssembler
