import ModuleSplit.Declaration.Basic

namespace ModuleSplit.Declaration

open Text Phrase

def isImportStart (code : Text) : Bool :=
  (match keyword? "import" code with
    | some rest => !startsWith (dropBlanks rest) "("
    | none => false) ||
  (match spaced? "export" code with
    | some rest => startsWith rest "*"
    | none => false)

def isExportList (code : Text) : Bool :=
  match spaced? "export" code with
  | some rest => startsWith (skipSpaced "type" rest) "\x7b"
  | none => false

def fromClauseAt? (t : Text) : Option (Char × Text × Text) := do
  let rest ← dropLead? "from" t
  match dropBlanks rest with
  | quote :: body =>
    if quote = '\'' ∨ quote = '"' then
      let source := body.takeWhile fun c => c != '\'' && c != '"'
      match body.drop source.length with
      | close :: tail => if close = quote ∧ source ≠ [] then some (quote, source, tail) else none
      | [] => none
    else none
  | [] => none

def hasFromClause (t : Text) : Bool := (findWord? fromClauseAt? t).isSome

def afterModifiers (code : Text) : Text :=
  skipSpaced "declare" (skipSpaced "default" (skipSpaced "export" code))

def isAmbient (code : Text) : Bool :=
  (keyword? "declare" (skipSpaced "default" (skipSpaced "export" code))).isSome

structure TypeForm where
  name : Option Text
  isAlias : Bool
  deriving DecidableEq, Repr

def namedBody? (word : String) (t : Text) : Option TypeForm := do
  return ⟨some (← identName? (← spaced? word t)), false⟩

def typeAlias? (t : Text) : Option TypeForm := do
  let (name, rest) ← ident? (← spaced? "type" t)
  match dropBlanks rest with
  | [] | '=' :: _ | '<' :: _ => return ⟨some name, true⟩
  | _ => none

def module? (t : Text) : Option TypeForm := do
  let rest ← spaced? "module" t
  match identName? rest with
  | some name => return ⟨some name, false⟩
  | none => if startsWith rest "'" || startsWith rest "\"" then return ⟨none, false⟩ else none

def typeForm? (code : Text) : Option TypeForm :=
  let t := afterModifiers code
  namedBody? "interface" t <|> namedBody? "enum" (skipSpaced "const" t) <|> typeAlias? t <|>
    namedBody? "namespace" t <|> module? t

def isDeclareBlock (code : Text) : Bool :=
  match spaced? "declare" (skipSpaced "export" code) with
  | some rest =>
    (keyword? "module" rest <|> keyword? "global" rest <|> keyword? "namespace" rest).isSome
  | none => false

structure BindingForm where
  exported : Bool
  target : Text
  typeText : Option Text
  initializer : Option Text
  deriving DecidableEq, Repr

def typeSpan : Text → Text × Text
  | [] => ([], [])
  | '=' :: '>' :: rest => let (a, r) := typeSpan rest; ('=' :: '>' :: a, r)
  | c :: rest =>
    if c = '=' ∨ c = ';' then ([], c :: rest)
    else let (a, r) := typeSpan rest; (c :: a, r)

def initializer? (t : Text) : Option (Option Text) :=
  match t with
  | '=' :: rest =>
    if startsWith rest "=" || startsWith rest ">" then none
    else (lastLine? (dropBlanks rest)).map some
  | _ =>
    let rest := dropBlanks t
    let rest := (dropLead? ";" rest).getD rest
    if (dropBlanks rest).isEmpty then some none else none

def bindingRest? (exported : Bool) (target rest : Text) : Option BindingForm :=
  match dropBlanks rest with
  | ':' :: more => do
    let (typeText, tail) := typeSpan (dropBlanks more)
    return ⟨exported, target, some typeText, ← initializer? tail⟩
  | tail => do return ⟨exported, target, none, ← initializer? tail⟩

-- A pattern of bound names up to its closing delimiter. When what follows the whole pattern makes
-- no sense, a shorter piece of it is taken, the longest first.
def patternBinding? (exported : Bool) (opener closer : Char) (body : Text) : Option BindingForm :=
  let inner := body.takeWhile (· != closer)
  let rest := body.drop inner.length
  (match rest with
    | _ :: tail => bindingRest? exported (opener :: inner ++ [closer]) tail
    | [] => none) <|>
  (List.range (inner.length + 1)).reverse.findSome? fun n =>
    bindingRest? exported (opener :: inner.take n) (inner.drop n ++ rest)

def bindingTarget? (exported : Bool) (t : Text) : Option BindingForm :=
  match t with
  | '{' :: body => patternBinding? exported '{' '}' body
  | '[' :: body => patternBinding? exported '[' ']' body
  | _ => do
    let (name, rest) ← ident? t
    bindingRest? exported name rest

def bindingForm? (code : Text) : Option BindingForm := do
  let t := skipSpaced "declare" (skipSpaced "export" code)
  let rest ← spaced? "const" t <|> spaced? "let" t <|> spaced? "var" t
  bindingTarget? (spaced? "export" code).isSome rest

structure FunctionForm where
  exported : Bool
  isDefault : Bool
  name : Option Text
  deriving DecidableEq, Repr

def isDefaultForm (code : Text) : Bool := (spaced? "default" (skipSpaced "export" code)).isSome

def functionForm? (code : Text) : Option FunctionForm := do
  let rest ← keyword? "function" (skipSpaced "async" (afterModifiers code))
  let rest := dropBlanks rest
  let rest := dropBlanks ((dropLead? "*" rest).getD rest)
  return ⟨(spaced? "export" code).isSome, isDefaultForm code, identName? rest⟩

def className? (t : Text) : Option Text := do
  let rest ← blanks? t
  if (keyword? "extends" rest).isSome || (keyword? "implements" rest).isSome then none
  else identName? rest

def classForm? (code : Text) : Option FunctionForm := do
  let rest ← keyword? "class" (skipSpaced "abstract" (afterModifiers code))
  return ⟨(spaced? "export" code).isSome, isDefaultForm code, className? rest⟩

def isBaseChar (c : Char) : Bool := isIdentChar c || c == '.'

def extendsAt? (t : Text) : Option Text := do
  let base := (← spaced? "extends" t).takeWhile isBaseChar
  if base.isEmpty then none else some base

def baseClass? (code next : Text) : Option Text := findWord? extendsAt? code <|> extendsAt? next

end ModuleSplit.Declaration
