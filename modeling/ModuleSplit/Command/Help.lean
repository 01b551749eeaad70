import ModuleSplit.Command.Grammar

namespace ModuleSplit.Command

open Text

def helpWidth : Nat := 78

def lastHelpColumn : Nat := 24

def indented (n : Nat) (t : Text) : Text := List.replicate n ' ' ++ t

def fillFrom (width : Nat) (current : Text) : List Text → List Text
  | [] => if current.isEmpty then [] else [current]
  | t :: rest =>
    if current.isEmpty then fillFrom width t rest
    else if current.length + 1 + t.length ≤ width then
      fillFrom width (current ++ ' ' :: t) rest
    else current :: fillFrom width t rest

def fill (width : Nat) (parts : List Text) : List Text := fillFrom width [] parts

def fillWords (width : Nat) (s : String) : List Text := fill width (words s.toList)

namespace Opt

def usage (o : Opt) : Text :=
  let name := ((o.names.head?).getD "").toList
  match o.label? with
  | some label => '[' :: name ++ ' ' :: label ++ [']']
  | none => '[' :: name ++ [']']

def heading (o : Opt) : Text :=
  joinWith ", " (o.names.map fun name => match o.label? with
    | some label => name.toList ++ ' ' :: label
    | none => name.toList)

end Opt

namespace Operand

def usage : Operand → List Text
  | .none => []
  | .value key _ => [key.toList]
  | .command _ _ _ commands => [choiceLabel (commands.map (·.1)), "...".toList]

end Operand

namespace Grammar

-- One line if it fits; otherwise the operand starts a line of its own, and all lines after the
-- first are indented to the options.
def usage (g : Grammar) : List Text :=
  let lead := ("usage: " ++ g.name).toList
  let options := g.options.map (·.usage)
  let operand := g.operand.usage
  let line := joinWith " " (lead :: options ++ operand)
  if line.length ≤ helpWidth then [line]
  else
    let indent := lead.length + 1
    match fill (helpWidth - indent) options ++ fill (helpWidth - indent) operand with
    | [] => [lead]
    | first :: others => (lead ++ ' ' :: first) :: others.map (indented indent)

def entry (column indent : Nat) (heading : Text) (help : String) : List Text :=
  let room := column - indent - 2
  match fillWords (helpWidth - column) help with
  | [] => [indented indent heading]
  | first :: others =>
    let others := others.map (indented column)
    if heading.length ≤ room then
      indented indent (heading ++ List.replicate (room + 2 - heading.length) ' ' ++ first) :: others
    else indented indent heading :: indented column first :: others

def operandHeadings : Operand → List Text
  | .none => []
  | .value key _ => [key.toList]
  | .command _ _ _ commands => choiceLabel (commands.map (·.1)) :: commands.map (·.1.toList)

def helpColumn (g : Grammar) : Nat :=
  let headings := operandHeadings g.operand ++ g.options.map (·.heading)
  min ((headings.map (·.length)).foldl max 0 + 4) lastHelpColumn

def operandEntries (column : Nat) : Operand → List Text
  | .none => []
  | .value key help => entry column 2 key.toList help
  | .command _ _ help commands =>
    entry column 2 (choiceLabel (commands.map (·.1))) help ++
      commands.flatMap fun (name, help) => entry column 4 name.toList help

def helpSection (title : String) (entries : List Text) : List Text :=
  if entries.isEmpty then [] else title.toList :: entries

def help (g : Grammar) : List Text :=
  let column := g.helpColumn
  let parts := [
    g.usage,
    fillWords helpWidth g.description,
    helpSection "positional arguments:" (operandEntries column g.operand),
    helpSection "options:" (g.options.flatMap fun o => entry column 2 o.heading o.help),
    fillWords helpWidth g.epilog]
  List.intercalate [[]] (parts.filter (!·.isEmpty))

end Grammar

end ModuleSplit.Command
