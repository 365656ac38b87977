import CrossAssembler.Yaml.Tag

/-!
# Folded lines and escapes

A plain or quoted scalar may go on over several lines.  One line break within it
reads as a space, and of several the first is dropped; blanks around a line break
are dropped as well.  Between double quotes a backslash begins an escape, and a
line break behind a backslash reads as nothing.

## Main definitions

* `Gap` — what stands between two words of a scalar.
* `Gap.fill` — the text up to a gap, with what the gap reads as.
* `escape?` — the character that an escape stands for.
-/

namespace CrossAssembler
namespace Yaml

/-- What stands between two words of a scalar. -/
inductive Gap where
  /-- Nothing. -/
  | none
  /-- Blanks within a line, last one first. -/
  | blanks (text : List Char)
  /-- A line break and a number of empty lines. -/
  | lines (empty : Nat)
  /-- A line break behind a backslash and a number of empty lines. -/
  | escaped (empty : Nat)
  deriving DecidableEq, Repr

namespace Gap

/-- The gap with one more blank.  Blanks around line breaks are dropped. -/
def blank (c : Char) : Gap → Gap
  | none => blanks [c]
  | blanks text => blanks (c :: text)
  | gap => gap

/-- The gap with one more line break. -/
def lineBreak : Gap → Gap
  | none | blanks _ => lines 0
  | lines empty => lines (empty + 1)
  | escaped empty => escaped (empty + 1)

/-- Whether there is a line break in the gap. -/
def isLines : Gap → Bool
  | lines _ => true
  | _ => false

/-- The text before a gap together with what the gap reads as, last character
first. -/
def fill (text : List Char) : Gap → List Char
  | none => text
  | blanks between => between ++ text
  | lines 0 => ' ' :: text
  | lines empty => List.replicate empty '\n' ++ text
  | escaped empty => List.replicate empty '\n' ++ text

end Gap

/-! ### Escapes -/

/-- The character that one letter behind a backslash stands for. -/
def shortEscape? (c : Char) : Option Char :=
  match c with
  | '0' => some '\x00'
  | 'a' => some '\x07'
  | 'b' => some '\x08'
  | 't' | '\t' => some '\t'
  | 'n' => some '\n'
  | 'v' => some '\x0b'
  | 'f' => some '\x0c'
  | 'r' => some '\r'
  | 'e' => some '\x1b'
  | ' ' => some ' '
  | '"' => some '"'
  | '\'' => some '\''
  | '\\' => some '\\'
  | 'N' => some '\u0085'
  | '_' => some '\u00a0'
  | 'L' => some '\u2028'
  | 'P' => some '\u2029'
  | _ => none

/-- The number of hexadecimal digits that follow a letter behind a backslash. -/
def escapeDigits? (c : Char) : Option Nat :=
  match c with
  | 'x' => some 2
  | 'u' => some 4
  | 'U' => some 8
  | _ => none

/-- The character that the escape behind a backslash stands for, and the number of
characters of the escape. -/
def escape? : List Char → Option (Char × Nat)
  | [] => none
  | c :: rest =>
    match escapeDigits? c with
    | none => (shortEscape? c).map (·, 1)
    | some n =>
      let digits := rest.take n
      if digits.length < n then none
      else ((Numeral.hex? digits).bind charOfCode?).map (·, n + 1)

end Yaml
end CrossAssembler
