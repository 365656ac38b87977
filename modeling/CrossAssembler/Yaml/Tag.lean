import CrossAssembler.Text.Numeral
import CrossAssembler.Yaml.Character

/-!
# Tags and directives

A tag is one word: an exclamation mark and an address, an address between angle
brackets, or a handle and the rest of an address.  Octets of an address may be
written as two hexadecimal digits behind a percent sign.  A directive is a line
that begins with a percent sign; it is checked and has no further effect.

## Main definitions

* `Tag`, `Tag.ofWord?` — a tag, and the tag a word is.
* `uriText?` — the text of the address at the head of the characters.
* `isDirective` — whether a line is a directive.
-/

namespace CrossAssembler
namespace Yaml

/-- The type that a text claims for a node. -/
structure Tag where
  /-- The handle, with its exclamation marks. -/
  handle : List Char
  /-- What follows the handle. -/
  suffix : List Char
  deriving DecidableEq, Repr

/-! ### Addresses -/

/-- The value of an octet written as a percent sign and two hexadecimal digits. -/
def octet? : List Char → Option Nat
  | ['%', a, b] => Numeral.hex? [a, b]
  | _ => none

/-- The number of octets that belong together behind the first of them. -/
def octetCount? (octet : Nat) : Option Nat :=
  if octet < 0x80 then some 1
  else if octet < 0xC0 then none
  else if octet < 0xE0 then some 2
  else if octet < 0xF0 then some 3
  else if octet < 0xF8 then some 4
  else none

/-- The number that octets after the first make together with those before them. -/
def joinOctets? : Nat → Nat → List Char → Option Nat
  | 0, code, _ => some code
  | n + 1, code, text =>
    (octet? (text.take 3)).bind fun octet =>
      if 0x80 ≤ octet ∧ octet < 0xC0 then joinOctets? n (code * 256 + octet) (text.drop 3) else none

/-- The character with a code, if there is one. -/
def charOfCode? (code : Nat) : Option Char :=
  if code.isValidChar then some (Char.ofNat code) else none

/-- The character that the escape at the head of the text stands for, and the
number of characters of the escape. -/
def uriEscape? (text : List Char) : Option (Char × Nat) := do
  let first ← octet? (text.take 3)
  let n ← octetCount? first
  let code ← joinOctets? (n - 1) first (text.drop 3)
  let c ← charOfCode? code
  return (c, 3 * n)

/-- The text of the address at the head of the characters, and what follows it.
The first `skip` characters have been dealt with. -/
def uriTextFrom? (skip : Nat) : List Char → Option (List Char × List Char)
  | [] => some ([], [])
  | c :: rest =>
    if skip ≠ 0 then uriTextFrom? (skip - 1) rest
    else if c = '%' then do
      let (decoded, n) ← uriEscape? (c :: rest)
      let (text, rest) ← uriTextFrom? (n - 1) rest
      return (decoded :: text, rest)
    else if isUriChar c then (uriTextFrom? 0 rest).map fun (text, rest) => (c :: text, rest)
    else some ([], c :: rest)

/-- The text of the address at the head of the characters, and what follows it. -/
def uriText? (text : List Char) : Option (List Char × List Char) := uriTextFrom? 0 text

/-! ### Tags -/

/-- The handle at the head of the characters, and what follows it: an exclamation
mark, a name, and an exclamation mark if there is one. -/
def handle? : List Char → Option (List Char × List Char)
  | '!' :: rest =>
    let name := rest.takeWhile isNameChar
    match rest.dropWhile isNameChar with
    | '!' :: rest => some ('!' :: name ++ ['!'], rest)
    | rest => some ('!' :: name, rest)
  | _ => none

/-- Whether a handle has its second exclamation mark. -/
def isClosedHandle (handle : List Char) : Bool :=
  2 ≤ handle.length && handle.getLast? == some '!'

/-- The tag a word is. -/
def Tag.ofWord? : List Char → Option Tag
  | '!' :: '<' :: rest => do
    let (text, rest) ← uriText? rest
    if text ≠ [] ∧ rest = ['>'] then some ⟨[], text⟩ else none
  | word => do
    let (handle, rest) ← handle? word
    let (text, rest) ← uriText? rest
    if rest ≠ [] then none
    else if isClosedHandle handle then if text = [] then none else some ⟨handle, text⟩
    else
      let suffix := handle.tail ++ text
      -- an exclamation mark alone
      if suffix = [] then some ⟨[], ['!']⟩ else some ⟨['!'], suffix⟩

/-! ### Directives -/

/-- What follows a version number of at most nine digits. -/
def afterVersionNumber? (text : List Char) : Option (List Char) :=
  let digits := text.takeWhile Char.isDigit
  if digits ≠ [] ∧ digits.length ≤ 9 then some (text.dropWhile Char.isDigit) else none

/-- What follows two version numbers with a dot between them. -/
def afterVersion? (text : List Char) : Option (List Char) :=
  match afterVersionNumber? (text.dropWhile isBlank) with
  | some ('.' :: rest) => afterVersionNumber? rest
  | _ => none

/-- What follows a tag handle and the address that it is to stand for. -/
def afterTagHandle? (text : List Char) : Option (List Char) := do
  let (handle, rest) ← handle? (text.dropWhile isBlank)
  if handle ≠ ['!'] ∧ !isClosedHandle handle then none
  let (text, rest) ← uriText? (rest.dropWhile isBlank)
  if text ≠ [] ∧ endsWord rest then some rest else none

/-- Whether a line is a directive, less its percent sign.  Directives of unknown
names may go on in any way. -/
def isDirective (line : List Char) : Bool :=
  let name := line.takeWhile isNameChar
  let rest := line.dropWhile isNameChar
  name ≠ [] && endsWord rest &&
    if name = "YAML".toList then (afterVersion? rest).any onlyComment
    else if name = "TAG".toList then (afterTagHandle? rest).any onlyComment
    else true

end Yaml
end CrossAssembler
