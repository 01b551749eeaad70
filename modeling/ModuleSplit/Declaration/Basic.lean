import ModuleSplit.Declaration.Patterns

namespace ModuleSplit

inductive BlockKind where
  | import_
  | typedef
  | constant
  | function
  | component
  | statement
  deriving DecidableEq, Repr

namespace BlockKind

def name : BlockKind → String
  | .import_ => "import"
  | .typedef => "typedef"
  | .constant => "constant"
  | .function => "function"
  | .component => "component"
  | .statement => "statement"

def all : List BlockKind := [.import_, .typedef, .constant, .function, .component, .statement]

def named? (t : Text) : Option BlockKind := all.find? fun k => k.name.toList = t

def isDeclaration : BlockKind → Bool
  | .typedef | .constant | .function | .component => true
  | .import_ | .statement => false

end BlockKind

structure Declaration where
  kind : BlockKind
  names : List Text := []
  exported : Bool := false
  isDefault : Bool := false
  ambient : Bool := false
  functionKeyword : Bool := false
  classKeyword : Bool := false
  -- an interface, enumeration, namespace or module
  bodyKeyword : Bool := false
  typeText : Text := []
  initializer : Text := []
  baseClass : Option Text := none
  wrapper : Bool := false
  -- a list of exports; whether it names a source module is settled when it is complete
  exportList : Bool := false
  deriving DecidableEq, Repr

namespace Declaration

def awaitsBody (d : Declaration) : Bool :=
  d.bodyKeyword || ((d.functionKeyword || d.classKeyword) && !d.ambient)

end Declaration

end ModuleSplit
