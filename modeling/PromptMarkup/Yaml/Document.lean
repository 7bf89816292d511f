/-
YAML documents.

`Yaml.read?` reads a text that is one document and gives its value as JSON.  The keys of mappings
are scalars and count by their text; a key that is written again keeps its place and takes the later
value.

What is read are block and flow collections and scalars in all their styles.  Anchors, aliases, tags
and directives are refused, collections may be nested to any depth, and a text that is refused is
refused without a reason and without a place.  Templates do not depend on any of this: they are read
with whatever `ConfigReader` there is, and the programs take this one.

Design notes: the tokens carry all structure, so the reader is one recursive function for nodes and
one for each kind of collection.  Each call takes a token or ends, which bounds the recursion.
-/
import PromptMarkup.Template.Syntax
import PromptMarkup.Yaml.Scalar
import PromptMarkup.Yaml.Token

namespace PromptMarkup.Yaml

/-- A node of a document. -/
inductive Node
  | scalar (plain : Bool) (text : List Char)
  | sequence (items : List Node)
  | mapping (entries : List (Node × Node))

/-- A node that is not written. -/
def Node.empty : Node :=
  .scalar true []

mutual

/-- A node.  With `block`, block collections may start here; with `indentless`, also the items of a
sequence that is not indented. -/
def node? (block indentless : Bool) : (bound : Nat) → List Tok → Option (Node × List Tok)
  | 0, _ => none
  | bound + 1, ts =>
    match ts with
    | .scalar plain text :: rest => some (.scalar plain text, rest)
    | .flowSequenceStart :: rest =>
      (flowItems? true bound rest).map fun (items, rest) => (.sequence items, rest)
    | .flowMappingStart :: rest =>
      (flowEntries? true bound rest).map fun (entries, rest) => (.mapping entries, rest)
    | .blockSequenceStart :: rest =>
      if block then (blockItems? bound rest).map fun (items, rest) => (.sequence items, rest)
      else none
    | .blockMappingStart :: rest =>
      if block then
        (blockEntries? bound rest).map fun (entries, rest) => (.mapping entries, rest)
      else none
    | .blockEntry :: _ =>
      if indentless then
        (indentlessItems? bound ts).map fun (items, rest) => (.sequence items, rest)
      else none
    | _ => none

/-- The items of a block sequence, up to its end mark. -/
def blockItems? : (bound : Nat) → List Tok → Option (List Node × List Tok)
  | 0, _ => none
  | bound + 1, ts =>
    match ts with
    | .blockEnd :: rest => some ([], rest)
    | .blockEntry :: rest =>
      let item : Option (Node × List Tok) :=
        match rest with
        | .blockEntry :: _ => some (.empty, rest)
        | .blockEnd :: _ => some (.empty, rest)
        | _ => node? true false bound rest
      item.bind fun (v, rest) =>
        (blockItems? bound rest).map fun (items, rest) => (v :: items, rest)
    | _ => none

/-- The items of a sequence that stands as a value without indentation of its own. -/
def indentlessItems? : (bound : Nat) → List Tok → Option (List Node × List Tok)
  | 0, _ => none
  | bound + 1, ts =>
    match ts with
    | .blockEntry :: rest =>
      let item : Option (Node × List Tok) :=
        match rest with
        | .blockEntry :: _ => some (.empty, rest)
        | .key :: _ => some (.empty, rest)
        | .value :: _ => some (.empty, rest)
        | .blockEnd :: _ => some (.empty, rest)
        | _ => node? true false bound rest
      item.bind fun (v, rest) =>
        (indentlessItems? bound rest).map fun (items, rest) => (v :: items, rest)
    | _ => some ([], ts)

/-- A key or a value of a block mapping, empty if nothing is written. -/
def blockPart? : (bound : Nat) → List Tok → Option (Node × List Tok)
  | 0, _ => none
  | bound + 1, ts =>
    match ts with
    | .key :: _ => some (.empty, ts)
    | .value :: _ => some (.empty, ts)
    | .blockEnd :: _ => some (.empty, ts)
    | _ => node? true true bound ts

/-- The entries of a block mapping, up to its end mark. -/
def blockEntries? : (bound : Nat) → List Tok → Option (List (Node × Node) × List Tok)
  | 0, _ => none
  | bound + 1, ts =>
    match ts with
    | .blockEnd :: rest => some ([], rest)
    | .key :: rest =>
      (blockPart? bound rest).bind fun (k, rest) =>
        let value : Option (Node × List Tok) :=
          match rest with
          | .value :: rest => blockPart? bound rest
          | _ => some (.empty, rest)
        value.bind fun (v, rest) =>
          (blockEntries? bound rest).map fun (entries, rest) => ((k, v) :: entries, rest)
    | _ => none

/-- A key or a value inside of a flow collection, empty if nothing is written. -/
def flowPart? : (bound : Nat) → List Tok → Option (Node × List Tok)
  | 0, _ => none
  | bound + 1, ts =>
    match ts with
    | .value :: _ => some (.empty, ts)
    | .flowEntry :: _ => some (.empty, ts)
    | .flowSequenceEnd :: _ => some (.empty, ts)
    | .flowMappingEnd :: _ => some (.empty, ts)
    | _ => node? false false bound ts

/-- The value behind a key inside of a flow collection, empty if there is none. -/
def flowValue? : (bound : Nat) → List Tok → Option (Node × List Tok)
  | 0, _ => none
  | bound + 1, ts =>
    match ts with
    | .value :: rest => flowPart? bound rest
    | _ => some (.empty, ts)

/-- The items of a flow sequence, up to its closing bracket.  An item may be a single entry of a
mapping. -/
def flowItems? (first : Bool) : (bound : Nat) → List Tok → Option (List Node × List Tok)
  | 0, _ => none
  | bound + 1, ts =>
    let continueWith (ts : List Tok) : Option (List Node × List Tok) :=
      match ts with
      | .flowSequenceEnd :: rest => some ([], rest)
      | .key :: rest =>
        (flowPart? bound rest).bind fun (k, rest) =>
          (flowValue? bound rest).bind fun (v, rest) =>
            (flowItems? false bound rest).map fun (items, rest) =>
              (.mapping [(k, v)] :: items, rest)
      | _ =>
        (node? false false bound ts).bind fun (v, rest) =>
          (flowItems? false bound rest).map fun (items, rest) => (v :: items, rest)
    match ts with
    | .flowSequenceEnd :: rest => some ([], rest)
    | .flowEntry :: rest => if first then none else continueWith rest
    | _ => if first then continueWith ts else none

/-- The entries of a flow mapping, up to its closing brace. -/
def flowEntries? (first : Bool) : (bound : Nat) → List Tok →
    Option (List (Node × Node) × List Tok)
  | 0, _ => none
  | bound + 1, ts =>
    let continueWith (ts : List Tok) : Option (List (Node × Node) × List Tok) :=
      match ts with
      | .flowMappingEnd :: rest => some ([], rest)
      | .key :: rest =>
        (flowPart? bound rest).bind fun (k, rest) =>
          (flowValue? bound rest).bind fun (v, rest) =>
            (flowEntries? false bound rest).map fun (entries, rest) => ((k, v) :: entries, rest)
      | _ =>
        (node? false false bound ts).bind fun (k, rest) =>
          (flowEntries? false bound rest).map fun (entries, rest) =>
            ((k, .empty) :: entries, rest)
    match ts with
    | .flowMappingEnd :: rest => some ([], rest)
    | .flowEntry :: rest => if first then none else continueWith rest
    | _ => if first then continueWith ts else none

end

mutual

/-- The value of a node. -/
def Node.toJson? : Node → Option Json
  | .scalar true text => Scalar.value? text
  | .scalar false text => some (.string (String.ofList text))
  | .sequence items => (itemsToJson? items).map Json.array
  | .mapping entries => (entriesToJson? entries []).map Json.object

/-- The values of nodes. -/
def itemsToJson? : List Node → Option (List Json)
  | [] => some []
  | v :: rest => v.toJson?.bind fun v => (itemsToJson? rest).map (v :: ·)

/-- The fields that entries give, added to those in front. -/
def entriesToJson? : List (Node × Node) → Fields Json → Option (Fields Json)
  | [], fields => some fields
  | (.scalar _ key, v) :: rest, fields =>
    v.toJson?.bind fun v => entriesToJson? rest (fields.put (String.ofList key) v)
  | _ :: _, _ => none

end

/-- A document without marks, or with a mark in front of it; `none` inside if it is empty. -/
def document? (ts : List Tok) : Option (Option Node) :=
  let body :=
    match ts with
    | .documentStart :: rest => rest
    | _ => ts
  let ended (ts : List Tok) : Bool := ts.all (· == .documentEnd)
  if ended body then some none
  else
    match node? true false (3 * body.length + 3) body with
    | some (v, rest) => if ended rest then some (some v) else none
    | none => none

/-- The value of a text that is one document; an empty document is null. -/
def read? (s : List Char) : Option Json :=
  let s :=
    match s with
    | c :: rest => if c.toNat == 0xFEFF then rest else s
    | [] => s
  (Scanner.tokens? s).bind fun ts =>
    (document? ts).bind fun
      | none => some .null
      | some v => v.toJson?

/-- Front matter that is written in YAML. -/
instance : ConfigReader where
  read raw := (read? raw).elim (.error ⟨none, none⟩) .ok

end PromptMarkup.Yaml
