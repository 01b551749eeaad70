import ModuleSplit.Project.Basic
import ModuleSplit.Terminal.Frame
import ModuleSplit.Terminal.Markup

namespace ModuleSplit.Command

open Text Terminal

structure Screen where
  decorated : Bool

def marked (mark : String) (t : Text) : Text :=
  ("[" ++ mark ++ "]").toList ++ Markup.escape t ++ ("[/" ++ mark ++ "]").toList

namespace Screen

def line (t : Text) : Text := asIs t ++ ['\n']

def markedLine (t : Text) : Text := line (Markup.shown t)

def status (s : Screen) (symbol : Char) (message : Text) : Text :=
  if s.decorated then markedLine (marked "green" [symbol] ++ ' ' :: Markup.escape message)
  else line (symbol :: ' ' :: message)

def success (s : Screen) : Text → Text := s.status '✓'

def warning (s : Screen) : Text → Text := s.status '⚠'

def failure (s : Screen) : Text → Text := s.status '✗'

def info (s : Screen) : Text → Text := s.status 'ℹ'

def detail (s : Screen) (t : Text) : Text :=
  if s.decorated then markedLine ("  ".toList ++ marked "dim" t) else line ("  ".toList ++ t)

def header (s : Screen) (title subtitle : Text) : Text :=
  if s.decorated then
    let below := if subtitle.isEmpty then [] else '\n' :: marked "dim" subtitle
    (panel (Markup.shown (marked "bold blue" title ++ below))).flatMap (· ++ ['\n'])
  else
    line ("\n=== ".toList ++ title ++ " ===".toList) ++
      if subtitle.isEmpty then [] else line subtitle

def heading (s : Screen) (title : Text) : Text :=
  if s.decorated then rule (Markup.shown (marked "bold" title)) ++ ['\n']
  else line ("\n--- ".toList ++ title ++ " ---".toList)

def fileTable (s : Screen) (title : Text) (files : List (Text × Discovery.LongFile)) : Text :=
  if s.decorated then
    let table : Table := {
      title := Markup.shown title
      columns := [{heading := "File".toList}, {heading := "Lines".toList, side := .right},
        {heading := "Framework".toList}]
      rows := files.map fun (label, f) => [Markup.shown (Markup.escape label), ofNat f.lines, f.framework] }
    table.render.flatMap (· ++ ['\n'])
  else
    line ('\n' :: title) ++ line (List.replicate title.length '-') ++
      files.flatMap fun (label, f) =>
        line (joinWith " | " [label, ofNat f.lines, f.framework])

def report (s : Screen) (r : SplitReport) : Text :=
  let name := (if r.dryRun then "[DRY RUN] " else "").toList ++ r.file.text
  let body :=
    if !r.success then
      s.failure (name ++ ": FAILED".toList) ++
        s.detail ("Error: ".toList ++ r.error.getD "None".toList)
    else if r.newFiles.isEmpty then s.info (name ++ ": nothing to split".toList)
    else
      s.success name ++
      r.newFiles.flatMap (fun p => s.detail ("-> ".toList ++ p.text)) ++
      s.detail ("Lines reduced: ".toList ++ ofNat r.linesReduced) ++
      match r.backup with
      | some p => s.detail ("Backup: ".toList ++ p.text)
      | none => []
  body ++ r.warnings.flatMap s.warning

def analysis (s : Screen) (a : Analysis) : Text :=
  s.heading ("Analysis of ".toList ++ a.path.name) ++
    a.summaryLines.flatMap fun t =>
      if s.decorated then markedLine (Markup.escape t) else line t

end Screen

end ModuleSplit.Command
