import ModuleSplit.Declaration.Forms
import ModuleSplit.Import.Basic

namespace ModuleSplit

namespace Import

open Text Phrase

def afterComment? : Text → Option Text
  | [] => none
  | '*' :: '/' :: rest => some rest
  | _ :: rest => afterComment? rest

-- Every block comment replaced by a space; one that never ends is no comment. `skip` counts the
-- characters of a comment that is already replaced.
def stripBlockComments (skip : Nat) : Text → Text
  | [] => []
  | c :: rest =>
    match skip with
    | k + 1 => stripBlockComments k rest
    | 0 =>
      match (dropLead? "/*" (c :: rest)).bind afterComment? with
      | some tail => ' ' :: stripBlockComments (rest.length - tail.length) rest
      | none => c :: stripBlockComments 0 rest

def stripLineComments (afterBlank inComment : Bool) : Text → Text
  | [] => []
  | c :: rest =>
    if inComment && c != '\n' then stripLineComments false true rest
    else if afterBlank && startsWith (c :: rest) "//" then stripLineComments false true rest
    else c :: stripLineComments (isBlank c) false rest

def plainText (raw : Text) : Text :=
  joinWith " " (words (stripLineComments true false (stripBlockComments 0 raw)))

def nameRun? (t : Text) : Option (Text × Text) :=
  let name := t.takeWhile isIdentChar
  if name.isEmpty then none else some (name, t.drop name.length)

def wholeName? (t : Text) : Option Text := do
  let (name, rest) ← nameRun? t
  if rest.isEmpty then some name else none

def plainSpecifier? (typeOnly : Bool) (t : Text) : Option Specifier := do
  let (name, rest) ← nameRun? t
  if rest.isEmpty then return ⟨name, name, typeOnly⟩
  return ⟨name, ← wholeName? (← spaced? "as" (← blanks? rest)), typeOnly⟩

-- The word `type` is a modifier where that makes sense, and a name elsewhere.
def specifier? (t : Text) : Option Specifier :=
  (spaced? "type" t).bind (plainSpecifier? true) <|> plainSpecifier? false t

def specifierList (body : Text) : List Specifier :=
  (splitOn ',' body).filterMap fun entry => specifier? (trim entry)

def ending? (t : Text) : Option Bool :=
  match dropBlanks t with
  | [] => some false
  | ';' :: rest => if (dropBlanks rest).isEmpty then some true else none
  | _ => none

structure FromClause where
  quote : Char
  source : Text
  semicolon : Bool
  deriving DecidableEq, Repr

def finalFrom? (t : Text) : Option FromClause := do
  let (quote, source, rest) ← Declaration.fromClauseAt? t
  return ⟨quote, source, ← ending? rest⟩

-- The shortest beginning that a final `from` follows, together with it. `last` is the character
-- in front, none at the very start, where nothing may end.
def clauseThenFrom? (last : Option Char) : Text → Option (Text × FromClause)
  | [] => none
  | c :: rest =>
    let here := match last with
      | none => none
      | some before =>
        if isBlank c || !isWord before then finalFrom? (dropBlanks (c :: rest)) else none
    match here with
    | some found => some ([], found)
    | none => (clauseThenFrom? (some c) rest).map fun (clause, found) => (c :: clause, found)

def bracePart? (t : Text) : Option (Text × Text) :=
  let before := t.takeWhile (· != '{')
  let inside := t.drop (before.length + 1)
  let tail := (inside.reverse.takeWhile (· != '}')).reverse
  if before.length < t.length && tail.length < inside.length then
    some (inside.take (inside.length - tail.length - 1), before ++ tail)
  else none

def namespaceName? (t : Text) : Option Text := do
  wholeName? (← spaced? "as" (dropBlanks (← dropLead? "*" t)))

def addBinding (i : ImportContent) (entry : Text) : ImportContent :=
  match namespaceName? entry with
  | some name => {i with namespaceName := some name}
  | none => match wholeName? entry with
    | some name => {i with defaultName := some name}
    | none => i

def contentOf (typeOnly : Bool) (clause source : Text) : ImportContent :=
  let (listed, outside) := match bracePart? clause with
    | some (body, outside) => (specifierList body, outside)
    | none => ([], clause)
  ((splitOn ',' outside).map trim).foldl addBinding
    {source := source, specifiers := listed, typeOnly := typeOnly}

def sideEffect? (raw t : Text) : Option Import := do
  match dropBlanks (← dropLead? "import" t) with
  | quote :: body =>
    let source := body.takeWhile fun c => c != '\'' && c != '"'
    match body.drop source.length with
    | close :: rest =>
      if (quote = '\'' ∨ quote = '"') ∧ close = quote ∧ source ≠ [] then
        return {source := source, raw := raw, quote := quote, semicolon := ← ending? rest}
      else none
    | [] => none
  | [] => none

def binding? (raw : Text) (typeOnly : Bool) (t : Text) : Option Import := do
  let (clause, found) ← clauseThenFrom? none t
  return {contentOf typeOnly clause found.source with
    raw := raw
    quote := found.quote
    semicolon := found.semicolon}

def withBindings? (raw t : Text) : Option Import := do
  let rest ← spaced? "import" t
  (spaced? "type" rest).bind (binding? raw true) <|> binding? raw false rest

def read? (raw : Text) : Option Import :=
  let t := plainText raw
  sideEffect? raw t <|> withBindings? raw t

end Import

namespace ReExport

open Text Phrase

def read? (raw : Text) : Option ReExport := do
  match skipSpaced "type" (← spaced? "export" (Import.plainText raw)) with
  | c :: rest =>
    if c = '*' ∨ c = '{' then
      let (quote, source, _) ← findWord? Declaration.fromClauseAt? rest
      return ⟨source, raw, quote⟩
    else none
  | [] => none

end ReExport

namespace ExportList

open Text Phrase

def read? (raw : Text) : Option (List Specifier) := do
  let rest ← spaced? "export" (Import.plainText raw)
  let body ← dropLead? "\x7b" (skipSpaced "type" rest)
  let inside := body.takeWhile (· != '}')
  let _ ← Import.ending? (← dropLead? "\x7d" (body.drop inside.length))
  let typeOnly := (spaced? "type" rest).isSome
  return (Import.specifierList inside).map fun s => {s with typeOnly := typeOnly || s.typeOnly}

end ExportList

end ModuleSplit
