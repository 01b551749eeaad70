import ModuleSplit.Block.Basic
import ModuleSplit.Declaration.Phrase
import ModuleSplit.Declaration.Describe
import ModuleSplit.Delimiter.Lexer

-- Partition of a source into blocks, in one pass over its lines and without a grammar. A block
-- starts at the first line of code outside every block. Imports and export lists close when their
-- braces balance, everything else when all delimiters do; a declaration that awaits its body goes
-- on until the body has opened. In each case the statement must be complete: its line ends with a
-- semicolon, or neither that line nor the next line of code carries on over the break.

namespace ModuleSplit

open Text

def nextCode (rest : List LineSummary) : Text :=
  match rest.find? (!·.isBlankCode) with
  | some line => trim line.code
  | none => []

-- Is a statement over with this line, when `rest` follows?
def statementComplete (line : LineSummary) (rest : List LineSummary) : Bool :=
  let code := trimRight line.code
  endsWith code ";" || (!Declaration.endsOpen code && !Declaration.startsOpen (nextCode rest))

-- A block that has been opened and not yet closed. `lastCode` is the line behind its last line of
-- code so far.
structure OpenBlock where
  start : Nat
  declaration : Declaration
  depth : Int := 0
  opened : Bool := false
  terminated : Bool := false
  lastCode : Nat
  deriving DecidableEq, Repr

namespace OpenBlock

def state (b : OpenBlock) : ScanState :=
  if b.declaration.exportList then .inImport else .ofKind b.declaration.kind

-- Imports and export lists count braces only, by whole lines.
def lowest (b : OpenBlock) (line : LineSummary) : Int :=
  if b.state = .inImport then b.depth + min line.braceDelta 0 else b.depth + line.minDepth

def deepen (b : OpenBlock) (line : LineSummary) : OpenBlock :=
  {b with
    depth := b.depth + (if b.state = .inImport then line.braceDelta else line.depthDelta)
    opened := b.opened || line.openedBrace
    terminated := b.terminated || line.hasTerminator}

def settled (b : OpenBlock) (line : LineSummary) : Bool :=
  b.depth ≤ 0 && !line.endsInLiteral &&
    !(b.declaration.awaitsBody && !b.opened && !b.terminated)

end OpenBlock

inductive Closing where
  | complete
  | unbalanced
  | endOfSource
  deriving DecidableEq, Repr

structure Extent where
  start : Nat
  stop : Nat
  declaration : Declaration
  state : ScanState
  closing : Closing
  deriving DecidableEq, Repr

namespace OpenBlock

def close (b : OpenBlock) (stop : Nat) (closing : Closing) : Extent :=
  ⟨b.start, stop, b.declaration, b.state, closing⟩

-- Reads the line with number `index`, `rest` being the lines behind it: the block goes on, or it
-- closes with this line.
def read (b : OpenBlock) (index : Nat) (line : LineSummary) (rest : List LineSummary) :
    OpenBlock ⊕ Extent :=
  let next := b.deepen line
  if b.lowest line < 0 then .inr (next.close (index + 1) .unbalanced)
  else if line.isBlankCode then .inl next
  else
    let next := {next with lastCode := index + 1}
    if next.settled line && statementComplete line rest then .inr (next.close (index + 1) .complete)
    else .inl next

end OpenBlock

def openBlock (p : Patterns) (index : Nat) (line : LineSummary) (rest : List LineSummary) :
    OpenBlock :=
  { start := index
    declaration := Declaration.describe p (trim line.code) (nextCode rest)
    lastCode := index + 1 }

-- The extents from line `index` on; `current` is the block that is open there, if one is.
def extents (p : Patterns) (current : Option OpenBlock) (index : Nat) :
    List LineSummary → List Extent
  | [] => match current with
    | some b => [b.close b.lastCode .endOfSource]
    | none => []
  | line :: rest =>
    match current with
    | none =>
      if line.isBlankCode then extents p none (index + 1) rest
      else match (openBlock p index line rest).read index line rest with
        | .inl b => extents p (some b) (index + 1) rest
        | .inr e => e :: extents p none (index + 1) rest
    | some b =>
      match b.read index line rest with
      | .inl b => extents p (some b) (index + 1) rest
      | .inr e => e :: extents p none (index + 1) rest

def linesBetween {α : Type} (start stop : Nat) (lines : List α) : List α :=
  (lines.drop start).take (stop - start)

namespace Extent

def kind (e : Extent) (p : Patterns) (summaries : List LineSummary) : BlockKind :=
  if e.declaration.exportList then
    let code := joinWith " " ((linesBetween e.start e.stop summaries).map (·.code))
    if Declaration.hasFromClause code then .import_ else .statement
  else if e.declaration.kind = .function ∧ (e.declaration.isComponent p).toOption = some true then
    .component
  else e.declaration.kind

def toBlock (e : Extent) (p : Patterns) (summaries : List LineSummary) : Block where
  start := e.start
  stop := e.stop
  kind := e.kind p summaries
  text := unlines ((linesBetween e.start e.stop summaries).map (·.text))
  names := e.declaration.names.filter (!·.isEmpty)
  unterminated := e.closing = .endOfSource

def warning? (e : Extent) : Option Warning :=
  match e.closing with
  | .complete => none
  | .unbalanced => some ⟨e.stop, .unbalancedCloser⟩
  | .endOfSource => some ⟨e.start + 1, .unterminated e.state⟩

end Extent

structure Scan where
  blocks : List Block
  warnings : List Warning
  deriving DecidableEq, Repr

def scan (p : Patterns) (mode : DelimiterMode) (lines : List Text) : Scan :=
  let summaries := summarize mode lines
  let found := extents p none 0 summaries
  ⟨found.map fun e => e.toBlock p summaries, found.filterMap (·.warning?)⟩

namespace Scan

def importBlocks (s : Scan) : List Block := s.blocks.filter (·.kind = .import_)

def bodyBlocks (s : Scan) : List Block := s.blocks.filter (·.kind ≠ .import_)

end Scan

end ModuleSplit
