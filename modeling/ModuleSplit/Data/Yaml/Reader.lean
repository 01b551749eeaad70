import ModuleSplit.Data.Yaml.Node
import ModuleSplit.Data.Yaml.Typing

namespace ModuleSplit.Yaml

namespace Node

def tag : Node → Tag
  | .scalar tag _ | .sequence _ tag _ | .mapping _ tag _ => tag
  | .reference _ => .other

def anchor? : Node → Option Text
  | .sequence anchor _ _ | .mapping anchor _ _ => anchor
  | _ => none

mutual

def depth : Node → Nat
  | .scalar _ _ | .reference _ => 1
  | .sequence _ _ items => depthOfAll items + 1
  | .mapping _ _ entries => depthOfPairs entries + 1

def depthOfAll : List Node → Nat
  | [] => 0
  | n :: rest => max n.depth (depthOfAll rest)

def depthOfPairs : List (Node × Node) → Nat
  | [] => 0
  | (k, v) :: rest => max (max k.depth v.depth) (depthOfPairs rest)

end

end Node

namespace Tag

def isCollection : Tag → Bool
  | .sequence | .mapping | .set | .orderedMapping | .pairs => true
  | _ => false

end Tag

namespace Document

def resolve (d : Document) : Node → Node
  | .reference name => (d.anchors.lookup name).getD Parse.emptyNode
  | n => n

def levelBound (d : Document) : Nat := 2 * (d.root.depth + 2) * (d.anchors.length + 2)

def isMerge (d : Document) (k : Node) : Bool := (d.resolve k).tag == .merge

mutual

-- The entries of a mapping with those that it takes in from others; its own come last. Of the
-- mappings named in `inside` the entries are being collected.
def flatten (d : Document) (fuel : Nat) (inside : List Text) (entries : List (Node × Node)) :
    Result (List (Node × Node)) :=
  match fuel with
  | 0 => .error .malformed
  | fuel + 1 => do
    let merged ← (entries.filter fun (k, _) => d.isMerge k).mapM fun (_, v) =>
      d.mergedEntries fuel inside v
    return merged.flatten ++ entries.filter fun (k, _) => !d.isMerge k

def mergedEntries (d : Document) (fuel : Nat) (inside : List Text) (n : Node) :
    Result (List (Node × Node)) :=
  match fuel with
  | 0 => .error .malformed
  | fuel + 1 =>
    match d.resolve n with
    | .mapping anchor _ entries => d.entriesInside fuel inside anchor entries
    | .sequence _ _ items => do
      let parts ← items.mapM fun item => match d.resolve item with
        | .mapping anchor _ entries => d.entriesInside fuel inside anchor entries
        | _ => .error .malformed
      return parts.reverse.flatten
    | _ => .error .malformed

def entriesInside (d : Document) (fuel : Nat) (inside : List Text) (anchor : Option Text)
    (entries : List (Node × Node)) : Result (List (Node × Node)) :=
  match fuel with
  | 0 => .error .malformed
  | fuel + 1 =>
    match anchor with
    | some name =>
      if inside.contains name then .ok (entries.filter fun (k, _) => !d.isMerge k)
      else d.flatten fuel (name :: inside) entries
    | none => d.flatten fuel inside entries

end

def entriesOf (d : Document) (anchor : Option Text) (entries : List (Node × Node)) :
    Result (List (Node × Node)) :=
  d.entriesInside (2 * d.levelBound) [] anchor entries

def scalarText? (d : Document) (fuel : Nat) (n : Node) : Option Text :=
  match fuel with
  | 0 => none
  | fuel + 1 =>
    match d.resolve n with
    | .scalar _ t => some t
    | .mapping _ _ entries =>
      match entries.find? fun (k, _) => (d.resolve k).tag == .default with
      | some (_, v) => d.scalarText? fuel v
      | none => none
    | _ => none

def isMapping : Node → Bool
  | .mapping _ _ _ => true
  | _ => false

def scalarValue (d : Document) (tag : Tag) (n : Node) : Result Value :=
  match d.scalarText? d.levelBound n with
  | some t =>
    if tag = .timestamp ∧ isMapping n then .error .wrongType
    else (tag.valueOf? t).getD (.error .malformed)
  | none => .error .malformed

def keyTag (k : Node) : Tag := if k.tag = .default then .text else k.tag

-- The nodes are gone through once to find the first thing that is wrong, before any value is built.
structure Visit where
  -- names whose nodes have been dealt with
  seen : List Text := []
  -- collections whose contents come later
  later : Array Node := #[]

abbrev Check := StateT Visit (Except Failure)

def visit (d : Document) (n : Node) : Check PUnit := do
  let target := d.resolve n
  let name := match n with
    | .reference name => some name
    | _ => n.anchor?
  if let some name := name then
    if (← get).seen.contains name then return
    modify fun s => {s with seen := name :: s.seen}
  if target.tag.isCollection then modify fun s => {s with later := s.later.push target}
  else
    let _ ← d.scalarValue target.tag target

def visitKey (d : Document) (n : Node) : Check PUnit := do
  let key := d.resolve n
  if key.tag.isCollection then throw .malformed
  let _ ← d.scalarValue (keyTag key) key

def visitPair (d : Document) (n : Node) : Check PUnit := do
  match d.resolve n with
  | .mapping _ _ [(k, v)] =>
    d.visit k
    d.visit v
  | _ => throw .malformed

def visitContents (d : Document) (n : Node) : Check PUnit := do
  match n.tag, n with
  | .sequence, .sequence _ _ items => items.forM d.visit
  | .mapping, .mapping anchor _ entries | .set, .mapping anchor _ entries =>
    (← d.entriesOf anchor entries).forM fun (k, v) => do
      d.visitKey k
      d.visit v
  | .orderedMapping, .sequence _ _ items | .pairs, .sequence _ _ items => items.forM d.visitPair
  | _, _ => throw .malformed

def checkLevels (d : Document) (fuel : Nat) : Check PUnit := do
  match fuel with
  | 0 => return
  | fuel + 1 =>
    let level := (← get).later
    if level.isEmpty then return
    modify fun s => {s with later := #[]}
    level.forM d.visitContents
    checkLevels d fuel

def check (d : Document) : Result PUnit := do
  let _ ← ((do d.visit d.root; d.checkLevels d.levelBound) : Check PUnit).run {}

abbrev Build := StateM (List (Text × Value))

abbrev Part := Value × Nat

def widest (parts : List Part) : Nat := parts.foldl (fun n part => max n part.2) 0

def keyOf (d : Document) (n : Node) : Key :=
  let key := d.resolve n
  match d.scalarValue (keyTag key) key with
  | .ok v => v.key?.getD .null
  | .error _ => .null

def positionOf (name : Text) : List (Option Text × Bool) → Option (Nat × Bool)
  | [] => none
  | (anchor, isList) :: rest =>
    if anchor = some name then some (0, isList)
    else (positionOf name rest).map fun (n, isList) => (n + 1, isList)

def keep (anchor : Option Text) (part : Part) : Build Part := do
  if let some name := anchor then
    if part.2 = 0 then modify ((name, part.1) :: ·)
  return part

def build (d : Document) (fuel : Nat) (around : List (Option Text × Bool)) (n : Node) :
    Build Part := do
  match fuel with
  | 0 => return (.null, 0)
  | fuel + 1 =>
    match n.tag, n with
    | _, .reference name =>
      match positionOf name around, (← get).lookup name with
      | some (level, isList), _ => return (.enclosing level isList, level + 1)
      | none, some v => return (v, 0)
      | none, none => d.build fuel around (d.resolve n)
    | .sequence, .sequence anchor _ items =>
      let parts ← items.mapM (d.build fuel ((anchor, true) :: around))
      keep anchor (.list (parts.map (·.1)), widest parts - 1)
    | .orderedMapping, .sequence anchor _ items | .pairs, .sequence anchor _ items =>
      let pairs ← items.mapM fun item => do
        match d.resolve item with
        | .mapping _ _ ((k, v) :: _) =>
          let (first, one) ← d.build fuel ((anchor, true) :: around) k
          let (second, other) ← d.build fuel ((anchor, true) :: around) v
          return (Value.pair first second, max one other)
        | _ => return (Value.null, 0)
      keep anchor (.list (pairs.map (·.1)), widest pairs - 1)
    | .mapping, .mapping anchor _ entries =>
      let pairs ← ((d.entriesOf anchor entries).toOption.getD []).mapM fun (k, v) => do
        return (d.keyOf k, ← d.build fuel ((anchor, false) :: around) v)
      let filled := pairs.foldl (fun filled (k, v, _) => Entries.put filled k v) []
      keep anchor (.dict filled, widest (pairs.map (·.2)) - 1)
    | .set, .mapping anchor _ entries =>
      let keys := ((d.entriesOf anchor entries).toOption.getD []).map fun (k, _) => d.keyOf k
      let filled := keys.foldl (fun filled k => Entries.put filled k .null) []
      keep anchor (.set (filled.map (·.1)), 0)
    | tag, _ => return ((d.scalarValue tag n).toOption.getD .null, 0)

def value (d : Document) : Value :=
  let v := ((d.build d.levelBound [] d.root).run []).1.1
  if d.isLooped then v.opened 3 else v

end Document

-- An empty text is null. `ending` tells why the text breaks off, if that is not its end.
def read (t : Text) (ending : Option Failure) : Result Value := do
  match ← Document.ofText t ending with
  | none => return .null
  | some d =>
    d.check
    return d.value

end ModuleSplit.Yaml
