import CrossAssembler.Lowering.Pass

/-!
# JSON listings

The listing of a lowering as a JSON document.  How the document is laid out as a
text is left to an argument.

## Main definitions

* `Json` — the values a listing is made of.
* `document` — the document of a lowering.
* `json` — its text.
-/

namespace CrossAssembler
namespace Listing

open Lowering

/-- A value of a listing document. -/
inductive Json where
  /-- A whole number. -/
  | number (n : Int)
  /-- A string. -/
  | string (s : String)
  /-- A list of values. -/
  | array (items : List Json)
  /-- Named values, in order. -/
  | object (fields : List (String × Json))

/-- The value of the entry at an address. -/
def entryJson (entry : Entry) (address : Nat) : Json :=
  .object [("address", .number address), ("origin", .number entry.origin),
    ("instruction", .string entry.instruction.text)]

/-- The value of a diagnostic: its fields under the name of its kind. -/
def diagnosticJson : Diagnostic → Json
  | .unrecognized index word =>
    .object [("Unrecognized", .object [("index", .number index), ("mnemonic", .string word)])]
  | .untrackedRegister index register =>
    .object [("UntrackedRegister",
      .object [("index", .number index), ("reg", .number register.toInt)])]

/-- The listing of a lowering as a JSON document. -/
def document (lowered : Lowered) : Json :=
  .object [
    ("instructions", .array (lowered.program.entries.zipIdx.map fun (e, n) => entryJson e n)),
    ("diagnostics", .array (lowered.diagnostics.map diagnosticJson))]

/-- The listing of a lowering as a text, closed by a line feed. -/
def json (pretty : Json → String) (lowered : Lowered) : String := pretty (document lowered) ++ "\n"

end Listing
end CrossAssembler
