import ComponentPages.Yaml.Node

/-!
The meaning of a YAML document. Collections are opened one after the other in the order in which they are met,
so of two flaws the one nearer to the root is found first. The key `<<` merges the pairs of other mappings into
one; pairs of the mapping itself win over merged ones.
-/
namespace ComponentPages

namespace Yaml

/-- A document: its nodes with merges done, the meanings of its scalars, and its root. -/
structure Document where
  nodes : Array Node := #[]
  scalars : List (Nat × Scalar) := []
  root : Option Nat := none

/-- A document in the making: the nodes met so far and the collections still to be opened. -/
structure Builder where
  document : Document
  met : List Nat := []
  waiting : List Nat := []

abbrev Build := StateT Builder (Except Flaw)

namespace Build

/-- The name of the standard type of a tag. -/
def typeOf? (tag : Text) : Option Text := Text.after? (standardTag []) tag

def isType (type : String) (tag : Text) : Bool := tag == standardTag type.toList

def scalarTypes : List String := ["null", "bool", "int", "float", "binary", "timestamp", "str"]

def collectionTypes : List String := ["seq", "map", "set", "omap", "pairs"]

def nodeAt (number : Nat) : Build Node := do
  match (← get).document.nodes[number]? with
  | some node => pure node
  | none => throw .malformed

def setNode (number : Nat) (node : Node) : Build Unit :=
  modify fun builder => { builder with
    document := { builder.document with nodes := builder.document.nodes.setIfInBounds number node } }

/-- The text of a scalar. A mapping that marks one of its values as its own stands for it. -/
def textOf : Nat → Nat → Build Text
  | 0, _ => throw .malformed
  | fuel + 1, number => do
    match ← nodeAt number with
    | .scalar _ text => pure text
    | .sequence _ _ => throw .malformed
    | .mapping _ pairs => do
      match ← pairs.findM? fun (key, _) => do pure (isType "value" (← nodeAt key).tag) with
      | some (_, value) => textOf fuel value
      | none => throw .malformed

/-- Gives a node its meaning, or puts it off if it is a collection. -/
def construct (number : Nat) : Build Unit := do
  let builder ← get
  if !builder.met.contains number then
    set { builder with met := number :: builder.met }
    let type := String.ofList ((typeOf? (← nodeAt number).tag).getD [])
    if scalarTypes.contains type then
      let text ← textOf (builder.document.nodes.size + 1) number
      let scalar ← Schema.read type.toList text
      modify fun builder => { builder with
        document := { builder.document with scalars := (number, scalar) :: builder.document.scalars } }
    else if collectionTypes.contains type then
      modify fun builder => { builder with waiting := builder.waiting ++ [number] }
    else throw .malformed

/-- Whether a node may be a key. -/
def isKey (number : Nat) : Build Bool := do
  let tag := (← nodeAt number).tag
  pure (!collectionTypes.any fun type => isType type tag)

/-- Splits the pairs of a mapping into those to merge and its own; a key that marks a value is text. -/
def splitPairs : List (Nat × Nat) → Build (List Nat × List (Nat × Nat))
  | [] => pure ([], [])
  | (key, value) :: rest => do
    let node ← nodeAt key
    if isType "merge" node.tag then
      let (merged, own) ← splitPairs rest
      pure (value :: merged, own)
    else
      match node with
      | .scalar tag text => if isType "value" tag then setNode key (.scalar (standardTag "str") text)
      | _ => pure ()
      let (merged, own) ← splitPairs rest
      pure (merged, (key, value) :: own)

def pairsOf (number : Nat) : Build (List (Nat × Nat)) := do
  match ← nodeAt number with
  | .mapping _ pairs => pure pairs
  | _ => throw .malformed

/-- Merges other mappings into a mapping, as its merge keys say. -/
def merge : Nat → Nat → Build Unit
  | 0, _ => throw .malformed
  | fuel + 1, number => do
    match ← nodeAt number with
    | .mapping tag pairs =>
      let (merged, own) ← splitPairs pairs
      setNode number (.mapping tag own)
      let found ← merged.mapM fun value => do
        match ← nodeAt value with
        | .mapping _ _ =>
          merge fuel value
          pairsOf value
        | .sequence _ items =>
          let parts ← items.mapM fun item => do
            discard (pairsOf item)
            merge fuel item
            pairsOf item
          pure parts.reverse.flatten
        | .scalar _ _ => throw .malformed
      if !merged.isEmpty then
        match ← nodeAt number with
        | .mapping tag own => setNode number (.mapping tag (found.flatten ++ own))
        | _ => pure ()
    | _ => throw .malformed

def constructPairs (pairs : List (Nat × Nat)) : Build Unit :=
  pairs.forM fun (key, value) => do
    construct key
    if !(← isKey key) then throw .malformed
    construct value

/-- Gives the members of a collection their meanings. -/
def openCollection (number : Nat) : Build Unit := do
  let node ← nodeAt number
  match node with
  | .mapping tag _ =>
    if isType "map" tag || isType "set" tag then
      merge ((← get).document.nodes.size + 1) number
      constructPairs (← pairsOf number)
    else throw .malformed
  | .sequence tag items =>
    if isType "seq" tag then items.forM construct
    else if isType "omap" tag || isType "pairs" tag then
      items.forM fun item => do
        match ← nodeAt item with
        | .mapping _ [(key, value)] =>
          construct key
          construct value
        | _ => throw .malformed
    else throw .malformed
  | .scalar _ _ => throw .malformed

/-- Opens the collections that wait; each is opened once, so there are at most as many as nodes. -/
def openAll : Nat → Build Unit
  | 0 => pure ()
  | fuel + 1 => do
    let builder ← get
    match builder.waiting with
    | [] => pure ()
    | number :: waiting =>
      set { builder with waiting }
      openCollection number
      openAll fuel

end Build

namespace Document

/-- Reads the one document of a text. -/
def read (text : Text) : Except Flaw Document := do
  let tokens ← TokenStream.ofText text
  let (root, composer) ← Compose.document.run { tokens }
  match root with
  | none => .ok {}
  | some root =>
    let start : Builder := { document := { nodes := composer.nodes, root := some root } }
    let ((), builder) ← (do Build.construct root; Build.openAll composer.nodes.size : Build Unit).run start
    .ok builder.document

def scalar? (document : Document) (number : Nat) : Option Scalar := document.scalars.lookup number

/-- Whether a node is a mapping from keys to values. -/
def isMapping (document : Document) (number : Nat) : Bool :=
  match document.nodes[number]? with
  | some (.mapping tag _) => Build.isType "map" tag
  | _ => false

/-- The value of a key in a mapping; the last one counts. -/
def member? (document : Document) (number : Nat) (key : Text) : Option Nat :=
  match document.nodes[number]? with
  | some (.mapping tag pairs) =>
    if Build.isType "map" tag then
      (pairs.reverse.find? fun (name, _) => document.scalar? name = some (.text key)).map Prod.snd
    else none
  | _ => none

end Document

end Yaml

end ComponentPages
