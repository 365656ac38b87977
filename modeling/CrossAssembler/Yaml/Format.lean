import CrossAssembler.Target.File
import CrossAssembler.Yaml.Integer

/-!
# Target files in YAML

## Main definitions

* `Node.datum`, `Node.document` — what a node is taken for in a target file.
* `format` — YAML as a format of target files.
-/

namespace CrossAssembler
namespace Yaml

open Target (Datum Document Format)

/-- A node as a key, a value or an item.  Every scalar spells a name. -/
def Node.datum (n : Node) : Datum := ⟨n.text?, n.uint64?⟩

/-- A node as a whole document. -/
def Node.document : Node → Document
  | .mapping fields => .mapping (fields.map fun f => (f.1.datum, f.2.datum))
  | .list items => .list (items.map datum)
  | .scalar _ | .reference => .other

/-- YAML, with block mappings for what is written. -/
def format : Format where
  read text := (document? text).map Node.document
  write fields := Text.unlines ("---" :: fields.map fun f => f.1 ++ ": " ++ toString f.2)

end Yaml
end CrossAssembler
