import ComponentPages.Bindings
import ComponentPages.Yaml.Schema
import ComponentPages.Yaml.TokenStream

/-!
The nodes of a YAML document. An alias names a node that came before it, and may stand inside the very node it
names; so the nodes form a graph, and a collection refers to its members by number.
-/
namespace ComponentPages

namespace Yaml

inductive Node where
  | scalar (tag text : Text)
  | sequence (tag : Text) (items : List Nat)
  | mapping (tag : Text) (pairs : List (Nat × Nat))
deriving DecidableEq

namespace Node

def tag : Node → Text
  | .scalar tag _ => tag
  | .sequence tag _ => tag
  | .mapping tag _ => tag

end Node

/-- What the reading of a document keeps: the tokens left, the nodes so far and the names in use. -/
structure Composer where
  tokens : List Token
  nodes : Array Node := #[]
  anchors : Bindings Nat := []
  handles : Bindings Text := [(['!'], ['!']), (['!', '!'], standardTag [])]

abbrev Compose := StateT Composer (Except Flaw)

namespace Compose

def malformed {α : Type} : Compose α := throw .malformed

def peek : Compose (Option Token) := do pure (← get).tokens.head?

def skip : Compose Unit := modify fun composer => { composer with tokens := composer.tokens.drop 1 }

/-- Takes a token if it is the next one. -/
def takeIf (token : Token) : Compose Bool := do
  if (← peek) = some token then skip; pure true else pure false

/-- Whether the next token is one of a list; the end of the tokens counts as none. -/
def nextIn (tokens : List Token) : Compose Bool := do
  pure ((← peek).any tokens.contains)

/-- Adds a node. -/
def add (node : Node) : Compose Nat := do
  let composer ← get
  set { composer with nodes := composer.nodes.push node }
  pure composer.nodes.size

def emptyScalar : Compose Nat := add (.scalar (standardTag "null") [])

/-- Names a node; no name is given twice. -/
def name (anchor : Option Text) (node : Nat) : Compose Unit := do
  match anchor with
  | none => pure ()
  | some anchor => modify fun composer => { composer with anchors := composer.anchors.set anchor node }

/-- Adds the start of a collection, so that its members may refer to it. -/
def start (anchor : Option Text) (node : Node) : Compose Nat := do
  let number ← add node
  name anchor number
  pure number

def finish (number : Nat) (node : Node) : Compose Nat := do
  modify fun composer => { composer with nodes := composer.nodes.setIfInBounds number node }
  pure number

def takeAnchor : Compose (Option Text) := do
  match ← peek with
  | some (.anchor name) =>
    skip
    pure (some name)
  | _ => pure none

/-- The tag that a written tag stands for. -/
def takeTag : Compose (Option Text) := do
  match ← peek with
  | some (.tag tag) =>
    skip
    match tag.handle with
    | none => pure (some tag.suffix)
    | some handle =>
      match (← get).handles.get? handle with
      | some stem => pure (some (stem ++ tag.suffix))
      | none => malformed
  | _ => pure none

/-- An anchor and a tag, in either order. -/
def properties : Compose (Option Text × Option Text) := do
  match ← takeAnchor with
  | some anchor => pure (some anchor, ← takeTag)
  | none =>
    let tag ← takeTag
    pure (← takeAnchor, tag)

/-- The tag of a collection. -/
def collectionTag (tag : Option Text) (type : Text) : Text :=
  match tag with
  | none | some ['!'] => standardTag type
  | some tag => tag

/-- The tag of a scalar. Plain text has the type it looks like, and so has any text marked as not specific. -/
def scalarTag (tag : Option Text) (plain : Bool) (text : Text) : Text :=
  match tag with
  | none => standardTag (if plain then Schema.typeOf text else "str")
  | some ['!'] => standardTag (Schema.typeOf text)
  | some tag => tag

mutual

/-- Reads a node. Block collections may stand where they are allowed, and entries without their own indentation
where a key precedes them. -/
def node (inBlock unindented : Bool) : Nat → Compose Nat
  | 0 => malformed
  | fuel + 1 => do
    match ← peek with
    | some (.alias name) =>
      skip
      match (← get).anchors.get? name with
      | some node => pure node
      | none => malformed
    | _ =>
      let (anchor, tag) ← properties
      let composer ← get
      if anchor.any fun name => composer.anchors.binds name then malformed
      match ← peek, inBlock with
      | some (.scalar plain text), _ =>
        skip
        let number ← add (.scalar (scalarTag tag plain text) text)
        name anchor number
        pure number
      | some .flowSequence, _ =>
        skip
        let tag := collectionTag tag "seq"
        let number ← start anchor (.sequence tag [])
        finish number (.sequence tag (← flowItems true fuel))
      | some .flowMapping, _ =>
        skip
        let tag := collectionTag tag "map"
        let number ← start anchor (.mapping tag [])
        finish number (.mapping tag (← flowPairs true fuel))
      | some .blockSequence, true =>
        skip
        let tag := collectionTag tag "seq"
        let number ← start anchor (.sequence tag [])
        finish number (.sequence tag (← blockItems fuel))
      | some .blockMapping, true =>
        skip
        let tag := collectionTag tag "map"
        let number ← start anchor (.mapping tag [])
        finish number (.mapping tag (← blockPairs fuel))
      | found, _ =>
        if unindented && found = some .blockEntry then
          let tag := collectionTag tag "seq"
          let number ← start anchor (.sequence tag [])
          finish number (.sequence tag (← unindentedItems fuel))
        else if anchor.isSome || tag.isSome then
          let number ← add (.scalar (scalarTag tag tag.isNone []) [])
          name anchor number
          pure number
        else malformed

/-- The entries of a block sequence, up to its end. -/
def blockItems : Nat → Compose (List Nat)
  | 0 => malformed
  | fuel + 1 => do
    if ← takeIf .blockEntry then
      let item ← if ← nextIn [.blockEntry, .blockEnd] then emptyScalar else node true false fuel
      pure (item :: (← blockItems fuel))
    else if ← takeIf .blockEnd then pure []
    else malformed

/-- The entries of a sequence that is not indented further than its key. -/
def unindentedItems : Nat → Compose (List Nat)
  | 0 => malformed
  | fuel + 1 => do
    if ← takeIf .blockEntry then
      let item ←
        if ← nextIn [.blockEntry, .key, .value, .blockEnd] then emptyScalar else node true false fuel
      pure (item :: (← unindentedItems fuel))
    else pure []

/-- The pairs of a block mapping, up to its end. -/
def blockPairs : Nat → Compose (List (Nat × Nat))
  | 0 => malformed
  | fuel + 1 => do
    let absent : List Token := [.key, .value, .blockEnd]
    if ← takeIf .key then
      let key ← if ← nextIn absent then emptyScalar else node true true fuel
      let value ←
        if ← takeIf .value then
          if ← nextIn absent then emptyScalar else node true true fuel
        else emptyScalar
      pure ((key, value) :: (← blockPairs fuel))
    else if ← takeIf .blockEnd then pure []
    else malformed

/-- The entries of a flow sequence, up to its end. A pair among them is a mapping of its own. -/
def flowItems (first : Bool) : Nat → Compose (List Nat)
  | 0 => malformed
  | fuel + 1 => do
    if ← takeIf .flowSequenceEnd then pure []
    else
      if !first then
        if !(← takeIf .flowEntry) then malformed
      if ← takeIf .key then
        let tag := standardTag "map"
        let number ← start none (.mapping tag [])
        let key ←
          if ← nextIn [.value, .flowEntry, .flowSequenceEnd] then emptyScalar else node false false fuel
        let value ←
          if ← takeIf .value then
            if ← nextIn [.flowEntry, .flowSequenceEnd] then emptyScalar else node false false fuel
          else emptyScalar
        let item ← finish number (.mapping tag [(key, value)])
        pure (item :: (← flowItems false fuel))
      else if ← takeIf .flowSequenceEnd then pure []
      else
        let item ← node false false fuel
        pure (item :: (← flowItems false fuel))

/-- The pairs of a flow mapping, up to its end. -/
def flowPairs (first : Bool) : Nat → Compose (List (Nat × Nat))
  | 0 => malformed
  | fuel + 1 => do
    if ← takeIf .flowMappingEnd then pure []
    else
      if !first then
        if !(← takeIf .flowEntry) then malformed
      if ← takeIf .key then
        let key ←
          if ← nextIn [.value, .flowEntry, .flowMappingEnd] then emptyScalar else node false false fuel
        let value ←
          if ← takeIf .value then
            if ← nextIn [.flowEntry, .flowMappingEnd] then emptyScalar else node false false fuel
          else emptyScalar
        pure ((key, value) :: (← flowPairs false fuel))
      else if ← takeIf .flowMappingEnd then pure []
      else
        let key ← node false false fuel
        let value ← emptyScalar
        pure ((key, value) :: (← flowPairs false fuel))

end

/-- Declares a handle; those of one document are distinct. -/
def declare (declared : List Text) (handle stem : Text) : Compose Unit := do
  if declared.contains handle then malformed
  modify fun composer => { composer with handles := composer.handles.set handle stem }

/-- The directives before a document, of which there is at most one version. -/
def directives (versioned : Bool) (declared : List Text) : List Token → Compose Unit
  | .directive directive :: rest => do
    skip
    match directive with
    | .version major =>
      if versioned || major != 1 then malformed
      directives true declared rest
    | .handle handle stem =>
      declare declared handle stem
      directives versioned (handle :: declared) rest
    | .unknown => directives versioned declared rest
  | _ => pure ()

/-- Drops marks of a document's end. -/
def dropEnds : List Token → List Token
  | .documentEnd :: rest => dropEnds rest
  | tokens => tokens

def isDirective : Token → Bool
  | .directive _ => true
  | _ => false

/-- Reads the one document of a stream; none if the stream is empty. -/
def document : Compose (Option Nat) := do
  let tokens := (← get).tokens
  let fuel := 4 * tokens.length + 4
  match tokens with
  | [] => pure none
  | first :: _ =>
    let root ←
      if isDirective first || first = .documentStart then
        directives false [] tokens
        if !(← takeIf .documentStart) then malformed
        let next ← peek
        if next.all fun token => isDirective token || token = .documentStart || token = .documentEnd then emptyScalar
        else node true false fuel
      else node true false fuel
    if dropEnds (← get).tokens = [] then pure (some root) else malformed

end Compose

end Yaml

end ComponentPages
