import ModuleSplit.Config.Settings
import ModuleSplit.Data.Display
import ModuleSplit.Declaration.Phrase
import ModuleSplit.Pattern.Matcher
import ModuleSplit.Pattern.Reader

-- The configured part of recognising declarations, made ready once for many files.

namespace ModuleSplit

structure Patterns where
  roleSuffixes : List Value
  -- names of wrapping functions, longest first; none when there is nothing to look for
  wrappers : Option (List Text)
  componentType : Option Pattern.Regex
  markup : List Pattern.Regex

namespace Patterns

open Text Phrase

def compileRegex (multiLine : Bool) (source : Text) : Result Pattern.Regex :=
  (Pattern.compile multiLine source).mapError .pattern

def typeSource (items : List Value) : Result Text := do
  let parts ← items.mapM fun v => do return "(?:".toList ++ (← v.display) ++ [')']
  return "^\\s*(?:".toList ++ joinWith "|" parts ++ [')']

def compileTypes (items : List Value) : Result (Option Pattern.Regex) := do
  if items.isEmpty then return none
  return some (← compileRegex false (← typeSource items))

def requireText : Value → Result Text
  | .text t => .ok t
  | _ => .error .wrongType

def compileWrappers (items : List Value) : Result (Option (List Text)) := do
  let names ← items.mapM requireText
  if names = [] ∨ names = [[]] then return none
  return some (names.mergeSort fun a b => a.length ≥ b.length)

def compileMarkup (v : Value) : Result Pattern.Regex := do compileRegex true (← requireText v)

def compile (s : ClassificationSettings) : Result Patterns := do
  let componentType ← compileTypes s.componentTypeAnnotations
  let wrappers ← compileWrappers s.componentWrappers
  let markup ← s.markupPatterns.mapM compileMarkup
  return ⟨s.mainRoleSuffixes, wrappers, componentType, markup⟩

def wrapperArgument? (name : Text) (t : Text) : Option Text := do
  callOpening? (· == '(') (dropBlanks (← after? name t))

def findWrapper? (p : Patterns) (read : Text → Option α) (t : Text) : Option α :=
  match p.wrappers with
  | none => none
  | some names => names.findSome? fun name => do read (← wrapperArgument? name t)

def isWrapperCall (p : Patterns) (t : Text) : Bool := (p.findWrapper? some t).isSome

def wrappedIdent? (p : Patterns) (t : Text) : Option Text :=
  p.findWrapper? (fun argument => do
    let (name, rest) ← ident? (dropBlanks argument)
    match dropBlanks rest with
    | ')' :: _ => some name
    | _ => none) t

def wrappedFunction? (p : Patterns) (t : Text) : Option (Option Text) :=
  p.findWrapper? (fun argument => do
    let rest ← keyword? "function" (skipSpaced "async" (dropBlanks argument))
    return identName? (dropBlanks rest)) t

def accepted : Option Pattern.State → Result Bool
  | none => .ok false
  | some s => if s.marks.isSound then .ok true else .error .crossedGroup

def hasComponentType (p : Patterns) (typeText : Text) : Result Bool :=
  match p.componentType with
  | some r => if typeText.isEmpty then .ok false else accepted (r.matchStart? typeText)
  | none => .ok false

def hasRoleSuffix (p : Patterns) (name : Text) : Result Bool :=
  if name.isEmpty then .ok false else endsWithAny name p.roleSuffixes

def containsMarkup (p : Patterns) (code : Text) : Result Bool :=
  p.markup.anyM fun r => accepted (r.search? code)

end Patterns

end ModuleSplit
