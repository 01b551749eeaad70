import ModuleSplit.Classification.DefaultExport
import ModuleSplit.Plan.Basic

namespace ModuleSplit

namespace Block

open Text Phrase

def promotableKeywords : List String :=
  ["const", "let", "var", "function", "class", "interface", "enum", "namespace"]

def isTypeName (t : Text) : Bool := (t.takeWhile isIdentChar).any isWord

def isPromotable (line : Text) : Bool :=
  let t := skipSpaced "declare" line
  (promotableKeywords.any fun word => (keyword? word t).isSome) ||
    ((spaced? "async" t).bind (keyword? "function")).isSome ||
    ((spaced? "abstract" t).bind (keyword? "class")).isSome ||
    (match spaced? "type" t with
      | some rest => isTypeName rest
      | none => false)

def promoted (b : Block) : Text :=
  if !b.kind.isDeclaration then b.text
  else
    let (first, rest) := cut '\n' b.text
    let indent := first.takeWhile isBlank
    let line := dropBlanks first
    if startsWith line "export" || !isPromotable line then b.text
    else indent ++ "export ".toList ++ line ++
      match rest with
      | none | some [] => []
      | some rest => '\n' :: rest

def isDefaultStatement (b : Block) : Bool := DefaultExport.isStatement b.firstLine

end Block

structure Draft where
  group : Group
  deriving DecidableEq, Repr

namespace Draft

def category (d : Draft) : Category := d.group.category

def body (d : Draft) : Text := Text.joinWith "\n\n" (d.group.blocks.map (·.promoted))

def holdsDefault (d : Draft) : Bool := d.group.blocks.any (·.isDefaultStatement)

def named (d : Draft) : List Text :=
  distinct ((d.group.blocks.filter fun b =>
    !b.isDefaultStatement && b.kind.isDeclaration).flatMap (·.names))

def declares (d : Draft) (name : Text) : Bool := d.group.declaredNames.contains name

end Draft

end ModuleSplit
