import ModuleSplit.Data.Yaml.Lexer
import ModuleSplit.Data.Yaml.Tag

-- The nodes of a YAML document: what its tokens say before scalars get their values.

namespace ModuleSplit.Yaml

inductive Node where
  | scalar (tag : Tag) (text : Text)
  | sequence (anchor : Option Text) (tag : Tag) (items : List Node)
  | mapping (anchor : Option Text) (tag : Tag) (entries : List (Node × Node))
  | reference (name : Text)
  deriving Repr

structure Document where
  root : Node
  anchors : List (Text × Node)
  -- a node is referred to from inside itself
  isLooped : Bool

structure Parser where
  tokens : List Token
  -- why there are no more tokens, if that is not the end of the text
  broken : Option Failure := none
  handles : List (Text × Text) := []
  -- names that have been given, and the nodes that bear them once these are complete
  claimed : List Text := []
  anchors : List (Text × Node) := []
  isLooped : Bool := false

abbrev Parse := StateT Parser (Except Failure)

namespace Parse

def refuse {α : Type} : Parse α := throw .malformed

def peek : Parse (Option Token) := do
  let s ← get
  match s.tokens, s.broken with
  | [], some f => throw f
  | tokens, _ => return tokens.head?

def next : Parse PUnit := modify fun s => {s with tokens := s.tokens.tail}

def accept (t : Token) : Parse Bool := do
  if (← peek) = some t then
    next
    return true
  return false

def expect (t : Token) : Parse PUnit := do if !(← accept t) then refuse

def nextIsOneOf (ts : List Token) : Parse Bool := do
  match ← peek with
  | some t => return ts.contains t
  | none => return false

def defaultHandles : List (Text × Text) :=
  [("!".toList, "!".toList), ("!!".toList, Tag.lead)]

def resolveTag (handle : Option Text) (suffix : Text) : Parse Text := do
  match handle with
  | none => return suffix
  | some h => match (← get).handles.lookup h with
    | some lead => return lead ++ suffix
    | none => refuse

def anchor? : Parse (Option Text) := do
  match ← peek with
  | some (.anchor name) =>
    next
    return some name
  | _ => return none

def tag? : Parse (Option (Option Text × Text)) := do
  match ← peek with
  | some (.tag handle suffix) =>
    next
    return some (handle, suffix)
  | _ => return none

def properties : Parse (Option Text × Option Text) := do
  let (anchor, tag) ← match ← anchor? with
    | some name => pure (some name, ← tag?)
    | none => do
      let tag ← tag?
      pure (← anchor?, tag)
  match tag with
  | some (handle, suffix) => return (anchor, some (← resolveTag handle suffix))
  | none => return (anchor, none)

def emptyNode : Node := .scalar .null []

def claim (anchor : Option Text) : Parse PUnit := do
  if let some name := anchor then
    if (← get).claimed.contains name then refuse
    modify fun s => {s with claimed := name :: s.claimed}

def remember (anchor : Option Text) (n : Node) : Parse Node := do
  if let some name := anchor then
    modify fun s => {s with anchors := (name, n) :: s.anchors}
  return n

def collectionTag (tag : Option Text) (untagged : Tag) : Tag :=
  match tag with
  | some t => if t = ['!'] then untagged else .named t
  | none => untagged

def scalarTag (tag : Option Text) (plain : Bool) (text : Text) : Tag :=
  match tag with
  | some t => if t = ['!'] then .ofLooks text else .named t
  | none => if plain then .ofLooks text else .text

def sequenceOf (anchor tag : Option Text) (items : Parse (List Node)) : Parse Node := do
  remember anchor (.sequence anchor (collectionTag tag .sequence) (← items))

def mappingOf (anchor tag : Option Text) (entries : Parse (List (Node × Node))) : Parse Node := do
  remember anchor (.mapping anchor (collectionTag tag .mapping) (← entries))

mutual

-- `block` admits collections by indentation, `flat` also a sequence that is not indented.
def node (fuel : Nat) (block flat : Bool) : Parse Node := do
  match fuel with
  | 0 => refuse
  | fuel + 1 =>
    if let some (.reference name) ← peek then
      next
      let s ← get
      if !s.claimed.contains name then refuse
      if (s.anchors.lookup name).isNone then set {s with isLooped := true}
      return .reference name
    else
      let (anchor, tag) ← properties
      claim anchor
      content fuel block flat anchor tag

def content (fuel : Nat) (block flat : Bool) (anchor tag : Option Text) : Parse Node := do
  match fuel with
  | 0 => refuse
  | fuel + 1 =>
    match ← peek with
    | some (.scalar t plain) =>
      next
      remember anchor (.scalar (scalarTag tag plain t) t)
    | some .openSequence =>
      next
      sequenceOf anchor tag (flowItems fuel true)
    | some .openMapping =>
      next
      mappingOf anchor tag (flowEntries fuel true)
    | some .entry =>
      if flat then sequenceOf anchor tag (flatItems fuel)
      else missing anchor tag
    | some .blockSequence =>
      if block then
        next
        sequenceOf anchor tag (blockItems fuel)
      else missing anchor tag
    | some .blockMapping =>
      if block then
        next
        mappingOf anchor tag (blockEntries fuel)
      else missing anchor tag
    | _ => missing anchor tag

def missing (anchor tag : Option Text) : Parse Node := do
  if anchor.isNone ∧ tag.isNone then refuse
  remember anchor (.scalar (scalarTag tag true []) [])

def blockItems (fuel : Nat) : Parse (List Node) := do
  match fuel with
  | 0 => refuse
  | fuel + 1 =>
    if ← accept .entry then
      let item ← if ← nextIsOneOf [.entry, .blockEnd] then pure emptyNode else node fuel true false
      return item :: (← blockItems fuel)
    expect .blockEnd
    return []

def flatItems (fuel : Nat) : Parse (List Node) := do
  match fuel with
  | 0 => refuse
  | fuel + 1 =>
    if ← accept .entry then
      let item ←
        if ← nextIsOneOf [.entry, .key, .value, .blockEnd] then pure emptyNode
        else node fuel true false
      return item :: (← flatItems fuel)
    return []

def blockPart (fuel : Nat) : Parse Node := do
  match fuel with
  | 0 => refuse
  | fuel + 1 =>
    if ← nextIsOneOf [.key, .value, .blockEnd] then return emptyNode
    node fuel true true

def blockEntries (fuel : Nat) : Parse (List (Node × Node)) := do
  match fuel with
  | 0 => refuse
  | fuel + 1 =>
    if ← accept .key then
      let k ← blockPart fuel
      let v ← if ← accept .value then blockPart fuel else pure emptyNode
      return (k, v) :: (← blockEntries fuel)
    if ← accept .blockEnd then return []
    refuse

def flowItems (fuel : Nat) (first : Bool) : Parse (List Node) := do
  match fuel with
  | 0 => refuse
  | fuel + 1 =>
    if ← accept .closeSequence then return []
    if !first then expect .comma
    if ← accept .closeSequence then return []
    let item ←
      if ← accept .key then
        mappingOf none none do
          let k ← flowPart fuel [.value, .comma, .closeSequence]
          let v ← if ← accept .value then flowPart fuel [.comma, .closeSequence] else pure emptyNode
          return [(k, v)]
      else node fuel false false
    return item :: (← flowItems fuel false)

def flowPart (fuel : Nat) (ends : List Token) : Parse Node := do
  match fuel with
  | 0 => refuse
  | fuel + 1 =>
    if ← nextIsOneOf ends then return emptyNode
    node fuel false false

def flowEntries (fuel : Nat) (first : Bool) : Parse (List (Node × Node)) := do
  match fuel with
  | 0 => refuse
  | fuel + 1 =>
    if ← accept .closeMapping then return []
    if !first then expect .comma
    if ← accept .closeMapping then return []
    let entry ←
      if ← accept .key then do
        let k ← flowPart fuel [.value, .comma, .closeMapping]
        let v ← if ← accept .value then flowPart fuel [.comma, .closeMapping] else pure emptyNode
        pure (k, v)
      else do pure (← node fuel false false, emptyNode)
    return entry :: (← flowEntries fuel false)

end

def directives (fuel : Nat) (version : Bool) (handles : List (Text × Text)) :
    Parse (List (Text × Text)) := do
  match fuel with
  | 0 => refuse
  | fuel + 1 =>
    match ← peek with
    | some (.yamlDirective major) =>
      if version ∨ major ≠ 1 then refuse
      next
      directives fuel true handles
    | some (.tagDirective handle lead) =>
      if (handles.lookup handle).isSome then refuse
      next
      directives fuel version (handles ++ [(handle, lead)])
    | some .otherDirective =>
      next
      directives fuel version handles
    | _ => return handles ++ defaultHandles

def isDirective : Option Token → Bool
  | some (.yamlDirective _) | some (.tagDirective _ _) | some .otherDirective => true
  | _ => false

def skipDocumentEnds (fuel : Nat) : Parse PUnit := do
  match fuel with
  | 0 => refuse
  | fuel + 1 => if ← accept .documentEnd then skipDocumentEnds fuel

def explicitDocument (fuel : Nat) : Parse Node := do
  let handles ← directives fuel false []
  modify fun s => {s with handles := handles}
  expect .documentStart
  match ← peek with
  | none | some .documentStart | some .documentEnd => return emptyNode
  | t => if isDirective t then return emptyNode else node fuel true false

def document (fuel : Nat) : Parse (Option Node) := do
  let first ← peek
  let root ←
    if first.isNone then pure none
    else if first = some .documentStart ∨ isDirective first then do
      pure (some (← explicitDocument fuel))
    else do
      modify fun s => {s with handles := defaultHandles}
      pure (some (← node fuel true false))
  skipDocumentEnds fuel
  if (← peek).isSome then refuse
  return root

end Parse

def Document.ofText (t : Text) (ending : Option Failure) : Result (Option Document) := do
  let (tokens, broken) := tokensOf t ending
  let (root, s) ← (Parse.document (4 * tokens.length + 8)).run {tokens := tokens, broken := broken}
  return root.map fun n => ⟨n, s.anchors, s.isLooped⟩

end ModuleSplit.Yaml
