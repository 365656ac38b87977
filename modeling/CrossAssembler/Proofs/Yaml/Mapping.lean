import CrossAssembler.Proofs.Yaml.Scanning
import CrossAssembler.Yaml.Node

/-!
# The document of a block mapping

Nodes are read from tokens with a supply of fuel that is computed from their number.  A field of two
words has four tokens and takes one unit from the supply for the fields behind it, so there is
always enough.

## Main definitions

* `Node.word`, `WordField.nodes` — the nodes of a word and of a field.

## Main results

* `blockFields_tokens` — fields are read from their tokens.
* `document?_mappingText` — the document of a text of fields.
-/

namespace CrossAssembler
namespace Yaml

/-! ### Scalars as nodes -/

/-- The node of a plain word. -/
def Node.word (w : List Char) : Node := .scalar ⟨.plain, none, w⟩

theorem node_word (fuel : Nat) (place : Place) (anchors : Anchors) (w : List Char)
    (rest : List Token) :
    node (fuel + 1) place anchors (.scalar .plain w :: rest) =
      some (.word w, anchors, rest) := by
  rw [node]
  · rfl
  · simp

theorem optionalNode_word (fuel : Nat) (anchors : Anchors) (w : List Char) (rest : List Token) :
    optionalNode (fuel + 2) .field endsField anchors (.scalar .plain w :: rest) =
      some (.word w, anchors, rest) := by
  rw [optionalNode]
  exact node_word fuel .field anchors w rest

theorem valueNode_word (fuel : Nat) (anchors : Anchors) (w : List Char) (rest : List Token) :
    valueNode (fuel + 3) .field endsField anchors (.value :: .scalar .plain w :: rest) =
      some (.word w, anchors, rest) := by
  rw [valueNode]
  exact optionalNode_word fuel anchors w rest

/-! ### Fields -/

/-- The nodes of a field. -/
def WordField.nodes (f : WordField) : Node × Node := (.word f.key, .word f.value)

/-- **The fields of a block mapping are read from their tokens**, given some fuel for each. -/
theorem blockFields_tokens (fields : List WordField) {n : Nat} (hn : fields.length + 4 ≤ n)
    (anchors : Anchors) (rest : List Token) :
    blockFields n anchors (fields.flatMap WordField.tokens ++ .blockEnd :: rest) =
      some (fields.map WordField.nodes, anchors, rest) := by
  induction fields generalizing n with
  | nil =>
    obtain ⟨m, rfl⟩ := Nat.exists_eq_add_of_le' hn
    rfl
  | cons f fields ih =>
    rw [List.length_cons] at hn
    obtain ⟨m, rfl⟩ : ∃ m, n = m + 5 := Nat.exists_eq_add_of_le' (by omega)
    have hfields := ih (n := m + 4) (by omega)
    have hkey := optionalNode_word (m + 2) anchors f.key
      (.value :: .scalar .plain f.value :: (fields.flatMap WordField.tokens ++ .blockEnd :: rest))
    have hvalue := valueNode_word (m + 1) anchors f.value
      (fields.flatMap WordField.tokens ++ .blockEnd :: rest)
    change blockFields (m + 4 + 1) anchors (.key :: .scalar .plain f.key :: .value ::
      .scalar .plain f.value :: (fields.flatMap WordField.tokens ++ .blockEnd :: rest)) = _
    rw [blockFields]
    simp only [hkey, hvalue, hfields, Option.bind_eq_bind, Option.bind_some]
    rfl

theorem length_flatMap_tokens (fields : List WordField) :
    (fields.flatMap WordField.tokens).length = 4 * fields.length := by
  induction fields with
  | nil => rfl
  | cons f fields ih =>
    rw [List.flatMap_cons, List.length_append, ih, List.length_cons, WordField.tokens]
    simp only [List.length_cons, List.length_nil]
    omega

/-- **The document of a block mapping.** -/
theorem documentOf?_tokens (fields : List WordField) :
    documentOf? (.documentStart :: .blockMapping :: (fields.flatMap WordField.tokens ++
        [.blockEnd])) = some (.mapping (fields.map WordField.nodes)) := by
  have hfuel : fuelFor (.blockMapping :: (fields.flatMap WordField.tokens ++ [.blockEnd])) =
      12 * fields.length + 8 + 1 := by
    rw [fuelFor, List.length_cons, List.length_append, length_flatMap_tokens, List.length_singleton]
    omega
  have hfields := blockFields_tokens fields (n := 12 * fields.length + 8) (by omega) [] []
  have hnode : node (fuelFor (.blockMapping :: (fields.flatMap WordField.tokens ++ [.blockEnd])))
      .item [] (.blockMapping :: (fields.flatMap WordField.tokens ++ [.blockEnd])) =
      some (.mapping (fields.map WordField.nodes), [], []) := by
    rw [hfuel, node]
    · change (blockFields (12 * fields.length + 8) [] _).map _ = _
      rw [hfields]
      rfl
    · simp
  have hdocument : firstDocument? (.documentStart :: .blockMapping ::
      (fields.flatMap WordField.tokens ++ [.blockEnd])) =
      some (.mapping (fields.map WordField.nodes), []) := by
    change Option.map (fun x => (x.1, x.2.2)) (node _ .item [] _) = _
    rw [hnode]
    rfl
  rw [documentOf?, hdocument]
  rfl

/-- **The document of a block mapping** has its fields, in their order. -/
theorem document?_mappingText {fields : List WordField} (hne : fields ≠ []) {text : String}
    (htext : text.toList = mappingText fields) :
    document? text = some (.mapping (fields.map WordField.nodes)) := by
  rw [document?, tokens?_mappingText hne htext]
  exact documentOf?_tokens fields

end Yaml
end CrossAssembler
