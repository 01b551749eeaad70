import ModuleSplit.Terminal.Cells
import ModuleSplit.Text.Encoding

namespace ModuleSplit.Terminal

open Text

def stroke (c : Char) (n : Nat) : Text := List.replicate n c

def rule (title : Text) : Text :=
  let flat := (printed title).map fun c => if c = '\n' then ' ' else c
  let title := truncate (lineWidth - 4) .ellipsis (expandTabs flat)
  let left := (lineWidth - cells title) / 2 - 1
  fit lineWidth (stroke '─' left ++ [' '] ++ title ++ [' '] ++ stroke '─' lineWidth)

def panel (body : Text) : List Text :=
  let inner := lineWidth - 2
  let line (t : Text) : Text := "│  ".toList ++ fit (inner - 4) t ++ "  │".toList
  ['╭' :: stroke '─' inner ++ ['╮']] ++
    ((wrap (inner - 4) .fold body).map line) ++
    ['╰' :: stroke '─' inner ++ ['╯']]

inductive Side where
  | left
  | right
  | center
  deriving DecidableEq, Repr

def align (side : Side) (width : Nat) (t : Text) : Text :=
  match side with
  | .left => fit width t
  | .right =>
    let t := trimRight t
    spaces (width - cells t) ++ t
  | .center =>
    let t := trimRight t
    fit width (spaces ((width - cells t) / 2) ++ t)

structure Column where
  heading : Text
  side : Side := .left

structure Table where
  title : Text
  columns : List Column
  rows : List (List Text)

namespace Table

-- Cells of the widest line in a column. Room is asked for before tabs are laid out, so a tab asks
-- for none.
def contentWidth (t : Table) (index : Nat) (c : Column) : Nat :=
  let entries := c.heading :: t.rows.filterMap (·[index]?)
  let level (t : Text) : Text := (printed t).map fun c => if isLineEnd c then '\n' else c
  ((entries.flatMap fun t => lines (level t)).map cells).foldl max 0

def total (widths : List Nat) : Nat := widths.foldl (· + ·) 0

def widths (t : Table) : List Nat :=
  let wanted := t.columns.mapIdx fun i c => t.contentWidth i c + 2
  match wanted with
  | [] => []
  | first :: others => min first (lineWidth - (wanted.length + 1) - total others) :: others

def rowLines (widths : List Nat) (columns : List Column) (bar : Char) (row : List Text) :
    List Text :=
  let entries := ((columns.zip widths).zip row).map fun ((c, width), t) =>
    (wrap (width - 2) .ellipsis t).map fun line => [' '] ++ align c.side (width - 2) line ++ [' ']
  let height := (entries.map (·.length)).foldl max 1
  (List.range height).map fun i =>
    let parts := (entries.zip widths).map fun (lines, width) => (lines[i]?).getD (spaces width)
    [bar] ++ List.intercalate [bar] parts ++ [bar]

def border (widths : List Nat) (left line between right : Char) : Text :=
  [left] ++ List.intercalate [between] (widths.map (stroke line)) ++ [right]

def render (t : Table) : List Text :=
  let widths := t.widths
  let across := total widths + widths.length + 1
  (wrap across .fold t.title).map (align .center across) ++
    [border widths '┏' '━' '┳' '┓'] ++
    rowLines widths t.columns '┃' (t.columns.map (·.heading)) ++
    [border widths '┡' '━' '╇' '┩'] ++
    t.rows.flatMap (rowLines widths t.columns '│') ++
    [border widths '└' '─' '┴' '┘']

end Table

end ModuleSplit.Terminal
