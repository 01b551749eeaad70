import ModuleSplit.Block.Basic
import ModuleSplit.Classification.Classify
import ModuleSplit.Import.Basic

namespace ModuleSplit

structure Group where
  category : Category
  blocks : List Block
  imports : List Import := []
  deriving DecidableEq, Repr

namespace Group

def declaredNames (g : Group) : List Text := distinct (g.blocks.flatMap (·.names))

def text (g : Group) : Text := Text.joinWith "\n\n" (g.blocks.map (·.text))

end Group

structure Plan where
  source : Source
  -- in the order of the categories, none of them empty
  groups : List Group := []
  importTable : List Import := []
  sideEffectImports : List Import := []
  reexports : List ReExport := []
  exportAliases : List Specifier := []
  defaultName : Option Text := none
  hasDefaultExport : Bool := false
  warnings : List Warning := []
  -- the style that most imports of the file are written in
  quote : Char := '\''
  semicolons : Bool := true
  deriving DecidableEq, Repr

namespace Plan

def isEmpty (p : Plan) : Bool := p.groups.isEmpty

def categories (p : Plan) : List Category := p.groups.map (·.category)

def declaredNames (p : Plan) : List Text := distinct (p.groups.flatMap (·.declaredNames))

def group? (p : Plan) (c : Category) : Option Group := p.groups.find? (·.category = c)

def blockCount (p : Plan) (c : Category) : Nat :=
  match p.group? c with
  | some g => g.blocks.length
  | none => 0

def importCount (p : Plan) : Nat :=
  p.importTable.length + p.sideEffectImports.length + p.reexports.length

end Plan

end ModuleSplit
