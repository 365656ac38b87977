import CrossAssembler.Listing.Json
import CrossAssembler.Text.Numeral

/-!
# The layout of JSON documents

A document is laid out over lines, with two spaces of indentation for each level.

## Main definitions

* `quote` — a string between quotes, with the characters escaped that JSON does
  not allow there.
* `Json.pretty` — the layout.
-/

namespace CrossAssembler
namespace Listing

/-! ### Strings -/

/-- A character as it is written between quotes: quotes, backslashes and control
characters are escaped, all else stands for itself. -/
def escape (c : Char) : List Char :=
  if c = '"' then ['\\', '"']
  else if c = '\\' then ['\\', '\\']
  else if c = '\x08' then ['\\', 'b']
  else if c = '\x0c' then ['\\', 'f']
  else if c = '\n' then ['\\', 'n']
  else if c = '\r' then ['\\', 'r']
  else if c = '\t' then ['\\', 't']
  else if c.toNat < 0x20 then '\\' :: 'u' :: Numeral.hexDigits 4 c.toNat
  else [c]

/-- A string between quotes. -/
def quote (s : String) : String := "\"" ++ String.ofList (s.toList.flatMap escape) ++ "\""

/-! ### Layout -/

/-- The break before an item: a new line, indented to the given depth. -/
def newline (depth : Nat) : String := "\n" ++ String.ofList (List.replicate (2 * depth) ' ')

/-- Items between two brackets, each on a line of its own.  Without items the
brackets stand next to each other. -/
def enclose (left right : String) (depth : Nat) (items : List String) : String :=
  if items.isEmpty then left ++ right
  else left ++ ",".intercalate (items.map (newline (depth + 1) ++ ·)) ++ newline depth ++ right

mutual

/-- The layout of a value whose first line is indented to the given depth. -/
def Json.layout (depth : Nat) : Json → String
  | .number n => toString n
  | .string s => quote s
  | .array items => enclose "[" "]" depth (layoutItems (depth + 1) items)
  | .object fields => enclose "\x7b" "\x7d" depth (layoutFields (depth + 1) fields)

/-- The layouts of the items of a list. -/
def Json.layoutItems (depth : Nat) : List Json → List String
  | [] => []
  | item :: rest => item.layout depth :: layoutItems depth rest

/-- The layouts of named values, each behind its name. -/
def Json.layoutFields (depth : Nat) : List (String × Json) → List String
  | [] => []
  | (name, value) :: rest =>
    (quote name ++ ": " ++ value.layout depth) :: layoutFields depth rest

end

/-- The layout of a document. -/
def Json.pretty (value : Json) : String := value.layout 0

end Listing
end CrossAssembler
