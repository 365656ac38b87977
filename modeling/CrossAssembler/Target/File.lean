import CrossAssembler.Target.Config
import CrossAssembler.Text.Layout

/-!
# Target files

A target file holds a document: a mapping of the three fields by name, or a list of
them in order.  What it leaves out keeps its default.

How a document is found in a text, and how fields are laid out in one, is the matter
of a format, which everything here takes as an argument.  Of the YAML format two
things are expected: that it writes fields on lines of their own, and that it reads
such lines.

## Main definitions

* `Target.Document`, `Target.Format` — what a file holds, and a format of files.
* `Target.ofDocument?` — the description a document gives.
* `Target.ofYaml` — the description a text gives, if it can be used.
* `Target.write` — a description as a text.
* `Target.Format.WritesLines`, `Target.Format.ReadsLines` — what is expected of a
  format.
-/

namespace CrossAssembler
namespace Target

/-- A field of a description. -/
inductive Field where
  /-- The size of the register file. -/
  | registers
  /-- The number of memory cells. -/
  | memorySize
  /-- The number of instructions a run may execute. -/
  | maxIterations
  deriving DecidableEq, Repr

namespace Field

/-- All fields, in the order of a list document. -/
def all : List Field := [registers, memorySize, maxIterations]

/-- The name of a field in a file. -/
def key : Field → String
  | registers => "registers"
  | memorySize => "memory_size"
  | maxIterations => "max_iterations"

/-- The field with a name. -/
def ofKey? (name : String) : Option Field := all.find? fun f => f.key == name

end Field

/-- The value of a field. -/
def get (t : Target) : Field → UInt64
  | .registers => t.registers
  | .memorySize => t.memorySize
  | .maxIterations => t.maxIterations

/-- Give a field a value. -/
def set (t : Target) (field : Field) (value : UInt64) : Target :=
  match field with
  | .registers => { t with registers := value }
  | .memorySize => { t with memorySize := value }
  | .maxIterations => { t with maxIterations := value }

/-! ### Formats -/

/-- A key, a value or an item of a document, by what it can be taken for. -/
structure Datum where
  /-- The name it spells, if it can be the name of a field. -/
  name? : Option String
  /-- The unsigned number it denotes. -/
  number? : Option UInt64
  deriving DecidableEq, Repr

/-- What a file holds. -/
inductive Document where
  /-- Named values, in the order of the text.  A name may occur more than once. -/
  | mapping (fields : List (Datum × Datum))
  /-- A list of values. -/
  | list (items : List Datum)
  /-- Something that has no fields. -/
  | other
  deriving DecidableEq, Repr

/-- A format of target files. -/
structure Format where
  /-- The document of a text, if it is well formed. -/
  read : String → Option Document
  /-- The text of named numbers. -/
  write : List (String × UInt64) → String

/-! ### Reading -/

/-- Take over the fields of a mapping.  Every key must be a name.  Unknown fields
are passed over; a known one must be a number, and must not be among those
already `seen`. -/
def setFields (t : Target) (seen : List Field) : List (Datum × Datum) → Option Target
  | [] => some t
  | (key, datum) :: rest =>
    key.name?.bind fun name =>
      match Field.ofKey? name with
      | none => setFields t seen rest
      | some field =>
        if field ∈ seen then none
        else datum.number?.bind fun value => setFields (t.set field value) (field :: seen) rest

/-- Take over the items of a list, each for the next field. -/
def setItems (t : Target) : List Field → List Datum → Option Target
  | _, [] => some t
  | [], _ :: _ => none
  | field :: fields, datum :: rest =>
    datum.number?.bind fun value => setItems (t.set field value) fields rest

/-- The description a document gives. -/
def ofDocument? : Document → Option Target
  | .mapping fields => setFields .default [] fields
  | .list items => setItems .default Field.all items
  | .other => none

/-- The description a text gives, before it is validated. -/
def parse (yaml : Format) (text : String) : Except TargetError Target :=
  match (yaml.read text).bind ofDocument? with
  | some t => .ok t
  | none => .error .malformed

/-- The description a text gives, if it can be used. -/
def ofYaml (yaml : Format) (text : String) : Except TargetError Target :=
  (parse yaml text).bind validate

/-! ### Writing -/

/-- A description as a text. -/
def write (yaml : Format) (t : Target) : String :=
  yaml.write (Field.all.map fun field => (field.key, t.get field))

/-! ### What is expected of a format -/

namespace Format

/-- Fields below the mark of a document, each on a line with its name, a colon and its
number in decimal. -/
def lines (fields : List (Field × UInt64)) : String :=
  Text.unlines ("---" :: fields.map fun f => f.1.key ++ ": " ++ toString f.2)

/-- Fields are written on lines of their own. -/
def WritesLines (format : Format) : Prop :=
  ∀ fields ≠ [], format.write (fields.map fun f => (f.1.key, f.2)) = lines fields

/-- Fields on lines of their own are read as a mapping, in which the keys are their names and
the values denote their numbers. -/
def ReadsLines (format : Format) : Prop :=
  ∀ fields ≠ [], ∃ data, format.read (lines fields) = some (.mapping data) ∧
    data.map (fun d => (d.1.name?, d.2.number?)) = fields.map fun f => (some f.1.key, some f.2)

end Format

end Target
end CrossAssembler
