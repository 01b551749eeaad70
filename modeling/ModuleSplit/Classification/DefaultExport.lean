import ModuleSplit.Declaration.Describe

namespace ModuleSplit.DefaultExport

open Text Phrase

def reservedWords : List String :=
  ["function", "class", "async", "abstract", "interface", "enum", "type", "extends", "implements"]

def isReserved (name : Text) : Bool := reservedWords.any fun word => word.toList = name

def opening? (t : Text) : Option Text := do spaced? "default" (← spaced? "export" t)

def functionName? (t : Text) : Option Text := do
  let rest := dropBlanks (← keyword? "function" t)
  identName? (dropBlanks ((dropLead? "*" rest).getD rest))

def className? (t : Text) : Option Text := do
  identName? (dropBlanks (← dropLead? "class" (skipSpaced "abstract" t)))

def declared? (t : Text) : Option Text := do
  let rest := skipSpaced "async" (← opening? t)
  functionName? rest <|> className? rest

def lineEnds (t : Text) : Bool :=
  (t.takeWhile isBlank).contains '\n' || (dropBlanks t).isEmpty

def named? (t : Text) : Option Text := do
  let (name, rest) ← ident? (← opening? t)
  let afterSemicolon := match dropLead? ";" (dropBlanks rest) with
    | some tail => lineEnds tail
    | none => false
  if lineEnds rest || afterSemicolon then some name else none

def specifierIn (afterIdent : Bool) : Text → Option Text
  | [] => none
  | c :: rest =>
    let here := if afterIdent then none else do
      let (name, tail) ← ident? (c :: rest)
      let _ ← asDefault? (← blanks? tail)
      return name
    match here with
    | some name => some name
    | none => if c = '}' then none else specifierIn (isIdentChar c) rest

def specifier? (t : Text) : Option Text := do
  specifierIn false (← dropLead? "\x7b" (dropBlanks (← dropLead? "export" t)))

def wrapped? (p : Patterns) (line : Text) : Option Text := do
  let rest := trim (← exportDefaultRest? line)
  p.wrappedIdent? rest <|> (p.wrappedFunction? rest).join

-- The first form that occurs decides; when it names a reserved word the next form is tried.
def plainName? (t : Text) : Option Text :=
  [findLine? declared? t, findLine? named? t, findLine? specifier? t].findSome? fun found =>
    found.filter (!isReserved ·)

def name? (p : Patterns) (t : Text) : Option Text :=
  plainName? t <|> (lines t).findSome? (wrapped? p)

def occurs (t : Text) : Bool :=
  (findLine? exportDefault? t).isSome || (findWord? asDefault? t).isSome

def isStatement (line : Text) : Bool :=
  (exportDefault? line).isSome ||
    match (dropLead? "export" line).bind fun rest => dropLead? "\x7b" (dropBlanks rest) with
    | some body => (findWord? asDefault? (body.takeWhile (· != '}'))).isSome
    | none => false

def isExportedFunction (line : Text) : Bool :=
  match spaced? "export" line with
  | some rest => (keyword? "function" (skipSpaced "async" (skipSpaced "default" rest))).isSome
  | none => false

end ModuleSplit.DefaultExport
