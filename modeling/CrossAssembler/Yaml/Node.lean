import CrossAssembler.Yaml.Scanner

/-!
# Nodes of a YAML document

A document is a scalar, a list, or a mapping from nodes to nodes.  Block
collections are closed by tokens of their own; flow collections are told by
brackets.  Keys, values and items may be left out.

## Main definitions

* `Node` — the tree of a document.
* `Anchors` — the nodes that have been given names.
* `Place` — where a node stands, which says what it may be.
* `node` — a node at the head of the tokens.
* `document?` — the one document of a text.
-/

namespace CrossAssembler
namespace Yaml

/-- The tree of a document. -/
inductive Node where
  /-- A scalar. -/
  | scalar (scalar : Scalar)
  /-- A list. -/
  | list (items : List Node)
  /-- A mapping, in the order of the text.  A key may occur more than once. -/
  | mapping (fields : List (Node × Node))
  /-- A list or a mapping that stands elsewhere. -/
  | reference

/-- The node of a key, a value or an item that has been left out. -/
def Node.absent : Node := .scalar ⟨.plain, none, ['~']⟩

/-- The text of a scalar. -/
def Node.text? : Node → Option String
  | .scalar s => some (String.ofList s.text)
  | _ => none

/-! ### What precedes a node -/

/-- The nodes that have been given names, latest first: scalars themselves, and of
collections only that they are some. -/
abbrev Anchors := List (List Char × Node)

/-- What precedes a node. -/
structure Properties where
  /-- The name it is given. -/
  anchor : Option (List Char)
  /-- Its tag. -/
  tag : Option Tag
  deriving DecidableEq, Repr

namespace Properties

/-- The properties at the head of the tokens, in either order. -/
def read : List Token → Properties × List Token
  | .anchor name :: .tag tag :: rest => (⟨some name, some tag⟩, rest)
  | .tag tag :: .anchor name :: rest => (⟨some name, some tag⟩, rest)
  | .anchor name :: rest => (⟨some name, none⟩, rest)
  | .tag tag :: rest => (⟨none, some tag⟩, rest)
  | rest => (⟨none, none⟩, rest)

/-- Whether there are any. -/
def isEmpty (p : Properties) : Bool := p.anchor.isNone && p.tag.isNone

/-- The names with that of a further node. -/
def declare (p : Properties) (node : Node) (anchors : Anchors) : Anchors :=
  match p.anchor with
  | some name => (name, node) :: anchors
  | none => anchors

end Properties

/-! ### Nodes -/

/-- Where a node stands. -/
inductive Place where
  /-- Within brackets, where there are no block collections. -/
  | flow
  /-- As an item of a block list, or as a whole document. -/
  | item
  /-- As a key or a value of a block mapping.  The dashes of a list may stand in
  the column of the mapping, and then no token says where the list begins. -/
  | field
  deriving DecidableEq, Repr

/-- Whether a key or a value of a block mapping before the token is left out. -/
def endsField (t : Token) : Bool := t == .key || t == .value || t == .blockEnd

/-- Whether an item of a block list before the token is left out. -/
def endsItem (t : Token) : Bool := t == .dash || t == .blockEnd

/-- Whether an item of a list without a beginning before the token is left out. -/
def endsBareItem (t : Token) : Bool := t == .dash || endsField t

/-- Whether a value in brackets that `close` closes is left out before the token. -/
def endsFlowValue (close t : Token) : Bool := t == .comma || t == close

/-- A result together with the names and the tokens it leaves. -/
abbrev Parsed (α : Type) := α × Anchors × List Token

/-- The tokens of a part of a flow collection.  All parts but the first follow a
comma. -/
def afterComma? (first : Bool) (tokens : List Token) : Option (List Token) :=
  match first, tokens with
  | true, _ => some tokens
  | false, .comma :: rest => some rest
  | false, _ => none

mutual

/-- A node at the head of the tokens. -/
def node : Nat → Place → Anchors → List Token → Option (Parsed Node)
  | 0, _, _, _ => none
  | fuel + 1, place, anchors, tokens =>
    match tokens with
    | .alias name :: rest => (anchors.lookup name).map (·, anchors, rest)
    | _ =>
      let (p, tokens) := Properties.read tokens
      let named := p.declare .reference anchors
      let empty :=
        if p.isEmpty then none
        else
          let n := Node.scalar ⟨.plain, p.tag, []⟩
          some (n, p.declare n anchors, tokens)
      match tokens with
      | .scalar style text :: rest =>
        let n := Node.scalar ⟨style, p.tag, text⟩
        some (n, p.declare n anchors, rest)
      | .openList :: rest =>
        (flowItems fuel true named rest).map fun (items, after) => (.list items, after)
      | .openMap :: rest =>
        (flowFields fuel true named rest).map fun (fields, after) => (.mapping fields, after)
      | .blockList :: rest =>
        if place = .flow then empty
        else (blockItems fuel named rest).map fun (items, after) => (.list items, after)
      | .blockMapping :: rest =>
        if place = .flow then empty
        else (blockFields fuel named rest).map fun (fields, after) => (.mapping fields, after)
      | .dash :: _ =>
        if place = .field then
          (bareItems fuel named tokens).map fun (items, after) => (.list items, after)
        else empty
      | _ => empty

/-- A node that is left out before a token with the property `ends`. -/
def optionalNode : Nat → Place → (Token → Bool) → Anchors → List Token → Option (Parsed Node)
  | 0, _, _, _, _ => none
  | fuel + 1, place, ends, anchors, tokens =>
    if tokens.head?.any ends then some (.absent, anchors, tokens)
    else node fuel place anchors tokens

/-- The node behind a colon.  It is left out if there is no colon. -/
def valueNode : Nat → Place → (Token → Bool) → Anchors → List Token → Option (Parsed Node)
  | 0, _, _, _, _ => none
  | fuel + 1, place, ends, anchors, tokens =>
    match tokens with
    | .value :: rest => optionalNode fuel place ends anchors rest
    | _ => some (.absent, anchors, tokens)

/-- The fields of a block mapping. -/
def blockFields : Nat → Anchors → List Token → Option (Parsed (List (Node × Node)))
  | 0, _, _ => none
  | fuel + 1, anchors, tokens =>
    match tokens with
    | .blockEnd :: rest => some ([], anchors, rest)
    | .key :: rest => do
      let (key, anchors, rest) ← optionalNode fuel .field endsField anchors rest
      let (value, anchors, rest) ← valueNode fuel .field endsField anchors rest
      let (fields, after) ← blockFields fuel anchors rest
      return ((key, value) :: fields, after)
    | .value :: _ => do
      let (value, anchors, rest) ← valueNode fuel .field endsField anchors tokens
      let (fields, after) ← blockFields fuel anchors rest
      return ((.absent, value) :: fields, after)
    | _ => none

/-- The items of a block list. -/
def blockItems : Nat → Anchors → List Token → Option (Parsed (List Node))
  | 0, _, _ => none
  | fuel + 1, anchors, tokens =>
    match tokens with
    | .blockEnd :: rest => some ([], anchors, rest)
    | .dash :: rest => do
      let (item, anchors, rest) ← optionalNode fuel .item endsItem anchors rest
      let (items, after) ← blockItems fuel anchors rest
      return (item :: items, after)
    | _ => none

/-- The items of a block list without a beginning, which ends with its dashes. -/
def bareItems : Nat → Anchors → List Token → Option (Parsed (List Node))
  | 0, _, _ => none
  | fuel + 1, anchors, tokens =>
    match tokens with
    | .dash :: rest => do
      let (item, anchors, rest) ← optionalNode fuel .item endsBareItem anchors rest
      let (items, after) ← bareItems fuel anchors rest
      return (item :: items, after)
    | _ => some ([], anchors, tokens)

/-- The items of a flow list, from its `first` or a later one on.  A comma may
follow the last. -/
def flowItems : Nat → Bool → Anchors → List Token → Option (Parsed (List Node))
  | 0, _, _, _ => none
  | fuel + 1, first, anchors, tokens =>
    match tokens with
    | .closeList :: rest => some ([], anchors, rest)
    | _ => do
      let tokens ← afterComma? first tokens
      match tokens with
      | .closeList :: rest => some ([], anchors, rest)
      | .key :: rest => do
        let (field, anchors, rest) ← flowPair fuel anchors rest
        let (items, after) ← flowItems fuel false anchors rest
        return (.mapping [field] :: items, after)
      | _ => do
        let (item, anchors, rest) ← node fuel .flow anchors tokens
        let (items, after) ← flowItems fuel false anchors rest
        return (item :: items, after)

/-- A single key with its value as an item of a flow list.  If the key is left out,
the token that shows it is used up. -/
def flowPair : Nat → Anchors → List Token → Option (Parsed (Node × Node))
  | 0, _, _ => none
  | fuel + 1, anchors, tokens => do
    let ends := endsFlowValue .closeList
    let (key, anchors, rest) ←
      if tokens.head?.any fun t => t == .value || ends t then
        some (Node.absent, anchors, tokens.tail)
      else node fuel .flow anchors tokens
    let (value, after) ← valueNode fuel .flow ends anchors rest
    return ((key, value), after)

/-- The fields of a flow mapping, from its `first` or a later one on.  A comma may
follow the last. -/
def flowFields : Nat → Bool → Anchors → List Token → Option (Parsed (List (Node × Node)))
  | 0, _, _, _ => none
  | fuel + 1, first, anchors, tokens =>
    let ends := endsFlowValue .closeMap
    match tokens with
    | .closeMap :: rest => some ([], anchors, rest)
    | _ => do
      let tokens ← afterComma? first tokens
      match tokens with
      | .closeMap :: rest => some ([], anchors, rest)
      | .key :: rest => do
        let (key, anchors, rest) ←
          optionalNode fuel .flow (fun t => t == .value || ends t) anchors rest
        let (value, anchors, rest) ← valueNode fuel .flow ends anchors rest
        let (fields, after) ← flowFields fuel false anchors rest
        return ((key, value) :: fields, after)
      | .value :: _ => do
        let (value, anchors, rest) ← valueNode fuel .flow ends anchors tokens
        let (fields, after) ← flowFields fuel false anchors rest
        return ((.absent, value) :: fields, after)
      | _ => do
        let (key, anchors, rest) ← node fuel .flow anchors tokens
        let (fields, after) ← flowFields fuel false anchors rest
        return ((key, .absent) :: fields, after)

end

/-! ### Documents -/

/-- Enough fuel for the tokens: of three calls in a row, one uses up a token. -/
def fuelFor (tokens : List Token) : Nat := 3 * (tokens.length + 1)

/-- Whether a document is left empty before a token. -/
def endsDocument (t : Token) : Bool := t == .directive || t == .documentStart || t == .documentEnd

/-- The document at the head of the tokens, and the tokens after it.  Directives
call for the mark of its start. -/
def firstDocument? (tokens : List Token) : Option (Node × List Token) :=
  let read := fun tokens =>
    (node (fuelFor tokens) .item [] tokens).map fun (n, _, rest) => (n, rest)
  match tokens with
  | [] => none
  | .directive :: _ | .documentStart :: _ =>
    match tokens.dropWhile (· == .directive) with
    | .documentStart :: rest =>
      if rest.head?.all endsDocument then some (.absent, rest) else read rest
    | _ => none
  | _ => read tokens

/-- The one document of the tokens: only ends of documents may follow it. -/
def documentOf? (tokens : List Token) : Option Node :=
  (firstDocument? tokens).bind fun (n, rest) =>
    if rest.all (· == .documentEnd) then some n else none

/-- The one document of a text. -/
def document? (text : String) : Option Node := (tokens? text).bind documentOf?

end Yaml
end CrossAssembler
