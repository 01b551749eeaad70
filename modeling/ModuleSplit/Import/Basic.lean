import ModuleSplit.Text.Basic

namespace ModuleSplit

structure Specifier where
  name : Text
  asName : Text
  typeOnly : Bool := false
  deriving DecidableEq, Repr

def Specifier.render (s : Specifier) : Text :=
  (if s.typeOnly then "type ".toList else []) ++
    if s.name = s.asName then s.name else s.name ++ " as ".toList ++ s.asName

structure ImportContent where
  source : Text
  specifiers : List Specifier := []
  defaultName : Option Text := none
  namespaceName : Option Text := none
  typeOnly : Bool := false
  deriving DecidableEq, Repr

structure Import extends ImportContent where
  raw : Text := []
  quote : Char := '\''
  semicolon : Bool := true
  deriving DecidableEq, Repr

namespace ImportContent

def names (i : ImportContent) : List Text :=
  i.defaultName.toList ++ i.namespaceName.toList ++ i.specifiers.map (·.asName)

def isSideEffect (i : ImportContent) : Bool := i.names.isEmpty

def isRelative (i : ImportContent) : Bool := Text.startsWith i.source "."

def clause (i : ImportContent) : Text :=
  Text.joinWith ", " (i.defaultName.toList ++
    (i.namespaceName.map ("* as ".toList ++ ·)).toList ++
    if i.specifiers.isEmpty then []
    else ["\x7b ".toList ++ Text.joinWith ", " (i.specifiers.map (·.render)) ++ " \x7d".toList])

end ImportContent

namespace Import

def quoted (quote : Char) (source : Text) : Text := quote :: source ++ [quote]

def render (i : Import) : Text :=
  let ending := quoted i.quote i.source ++ if i.semicolon then [';'] else []
  if i.isSideEffect then "import ".toList ++ ending
  else (if i.typeOnly then "import type " else "import ").toList ++ i.clause ++
    " from ".toList ++ ending

end Import

structure ReExport where
  source : Text
  raw : Text
  quote : Char := '\''
  deriving DecidableEq, Repr

namespace ReExport

def withSource (r : ReExport) (source : Text) : ReExport :=
  if source = r.source then r
  else {r with
    source := source
    raw := Text.replaceFirst (Import.quoted r.quote r.source) (Import.quoted r.quote source) r.raw}

end ReExport

end ModuleSplit
