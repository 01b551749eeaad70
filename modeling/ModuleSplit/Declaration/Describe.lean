import ModuleSplit.Declaration.Forms

namespace ModuleSplit

namespace Text

def isPascalCase (t : Text) : Bool :=
  let body := if endsWith t "\n" then t.dropLast else t
  match body with
  | c :: rest =>
    'A' ≤ c && c ≤ 'Z' && rest.all (fun d => isAsciiLetter d || isAsciiDigit d || d == '$') &&
      rest.any fun d => 'a' ≤ d && d ≤ 'z'
  | [] => false

end Text

namespace Declaration

open Text Phrase

def isPatternEdge (c : Char) : Bool := "\x7b\x7d[] ".toList.contains c

def boundName? (entry : Text) : Option Text :=
  let entry := (trim entry).dropWhile (· == '.')
  let entry := (cut ':' entry).2.getD entry
  let name := trim (cut '=' entry).1
  if isIdent name then some name else none

def destructuredNames (target : Text) : List Text :=
  (splitOn ',' (trimBy isPatternEdge target)).filterMap boundName?

def isArrowOfName (t : Text) : Bool :=
  let arrow (t : Text) : Bool := match ident? t with
    | some (_, rest) => startsWith (dropBlanks rest) "=>"
    | none => false
  (match spaced? "async" t with
    | some rest => arrow rest
    | none => false) || arrow t

def isParen (c : Char) : Bool := c == '(' || c == ')'

def opensParameters (t : Text) : Bool :=
  let t := match dropLead? "async" t with
    | some rest => dropBlanks rest
    | none => t
  (callOpening? isParen t).isSome

def isFunctionInitializer (p : Patterns) (init : Text) : Bool :=
  let init := trim init
  if init.isEmpty then false
  else if (keyword? "function" (skipSpaced "async" init)).isSome || (keyword? "class" init).isSome ||
      isArrowOfName init then true
  else if opensParameters init then
    holds init "=>" || countChar '(' init > countChar ')' init
  else p.isWrapperCall init

def describeType (code : Text) (form : Option TypeForm) : Declaration where
  kind := .typedef
  names := (form.bind (·.name)).toList
  bodyKeyword := !(form.any (·.isAlias))
  exported := startsWith code "export"
  isDefault := (exportDefault? code).isSome
  ambient := isAmbient code

def describeBinding (code next : Text) (p : Patterns) (form : BindingForm) : Declaration :=
  let names := match form.target with
    | '{' :: _ | '[' :: _ => destructuredNames form.target
    | name => [name]
  let init := trim (match form.initializer with
    | some init => if isBlankText init then next else init
    | none => [])
  let typeText := trim (form.typeText.getD [])
  if isFunctionInitializer p init then
    { kind := .function
      names := names
      exported := form.exported
      typeText := typeText
      initializer := init
      wrapper := p.isWrapperCall init
      classKeyword := (keyword? "class" init).isSome }
  else
    { kind := .constant
      names := names
      exported := form.exported
      ambient := isAmbient code
      typeText := typeText
      initializer := init }

def describeFunction (code : Text) (form : FunctionForm) : Declaration where
  kind := .function
  names := form.name.toList
  exported := form.exported
  isDefault := form.isDefault
  ambient := isAmbient code
  functionKeyword := true
  initializer := code

def describeClass (code next : Text) (form : FunctionForm) : Declaration where
  kind := .function
  names := form.name.toList
  exported := form.exported
  isDefault := form.isDefault
  ambient := isAmbient code
  classKeyword := true
  baseClass := baseClass? code next
  initializer := code

def describeDefault (p : Patterns) (rest : Text) : Declaration :=
  match p.wrappedFunction? rest with
  | some name =>
    { kind := .function, names := name.toList, exported := true, isDefault := true, wrapper := true,
      initializer := rest }
  | none =>
    if (p.wrappedIdent? rest).isNone && isFunctionInitializer p rest then
      { kind := .function, exported := true, isDefault := true, wrapper := p.isWrapperCall rest,
        initializer := rest }
    else { kind := .statement, exported := true, isDefault := true }

-- `code` is the trimmed opening line, `next` the code line that follows it.
def describe (p : Patterns) (code next : Text) : Declaration :=
  if isImportStart code then { kind := .import_ }
  else if isExportList code then { kind := .statement, exported := true, exportList := true }
  else if (typeForm? code).isSome || isDeclareBlock code then describeType code (typeForm? code)
  else match bindingForm? code with
    | some form => describeBinding code next p form
    | none =>
      match functionForm? code with
      | some form => describeFunction code form
      | none =>
        match classForm? code with
        | some form => describeClass code next form
        | none =>
          match exportDefaultRest? code with
          | some rest => describeDefault p (trim rest)
          | none => { kind := .statement }

def componentBases : List String :=
  ["Component", "PureComponent", "React.Component", "React.PureComponent"]

def hasPropsName (t : Text) : Bool :=
  match t with
  | [] => false
  | c :: rest =>
    (match dropLead? "Props" t with
      | some tail => wordEnds tail
      | none => false) || (isBaseChar c && hasPropsName rest)

def isPropsType (t : Text) : Bool :=
  match dropBlanks t with
  | ':' :: rest => hasPropsName (dropBlanks rest)
  | _ => false

def propsBehindPattern : Text → Bool
  | [] => false
  | c :: rest =>
    if c = ')' then false
    else (c == '}' && isPropsType rest) || propsBehindPattern rest

def takesProps (argument : Text) : Bool :=
  match dropBlanks argument with
  | '{' :: body => propsBehindPattern body
  | t => match ident? t with
    | some (_, rest) => isPropsType rest
    | none => false

def hasGenericProps : Text → Bool
  | [] => false
  | c :: rest =>
    (c == '<' && (match callOpening? isParen (c :: rest) with
      | some argument => takesProps argument
      | none => false)) || hasGenericProps rest

def isComponent (p : Patterns) (d : Declaration) : Result Bool := do
  if d.classKeyword then
    return match d.baseClass with
      | some base => componentBases.any fun b => b.toList = base
      | none => false
  if d.names.head?.any isPascalCase then return true
  if ← p.hasComponentType d.typeText then return true
  return d.wrapper || hasGenericProps d.initializer

end Declaration

end ModuleSplit
