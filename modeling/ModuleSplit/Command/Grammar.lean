import ModuleSplit.Text.Class

-- What a command line may hold: options, and behind them an operand or the name of a command.

namespace ModuleSplit.Command

open Text

inductive Effect where
  | showHelp
  | showVersion
  | turnOn (key : String)
  -- takes a value, which is one of the choices if there are any
  | take (key label : String) (choices : List String)
  deriving DecidableEq, Repr

structure Opt where
  names : List String
  effect : Effect
  help : String
  deriving DecidableEq, Repr

inductive Operand where
  | none
  | value (key help : String)
  -- the commands with a line of help each
  | command (key : String) (required : Bool) (help : String) (commands : List (String × String))
  deriving DecidableEq, Repr

structure Grammar where
  -- the words that lead here
  name : String
  options : List Opt
  operand : Operand := .none
  description : String := ""
  epilog : String := ""

def choiceLabel (choices : List String) : Text :=
  '{' :: joinWith "," (choices.map String.toList) ++ ['}']

namespace Opt

def forHelp : Opt := ⟨["-h", "--help"], .showHelp, "show this help message and exit"⟩

def label? (o : Opt) : Option Text :=
  match o.effect with
  | .take _ label [] => some label.toList
  | .take _ _ choices => some (choiceLabel choices)
  | _ => none

def shownName (o : Opt) : Text := joinWith "/" (o.names.map String.toList)

end Opt

namespace Grammar

def spellings (g : Grammar) : List (Text × Opt) :=
  g.options.flatMap fun o => o.names.map fun name => (name.toList, o)

def find? (g : Grammar) (name : Text) : Option Opt := g.spellings.lookup name

end Grammar

inductive Stop where
  | help
  | version
  | wrong (message : Text)
  deriving DecidableEq, Repr

def Stop.ofOption {α : Type} (o : Opt) (message : Text) : Except Stop α :=
  .error (.wrong ("argument ".toList ++ o.shownName ++ ": ".toList ++ message))

def badChoice (given : Text) (choices : List String) : Text :=
  "invalid choice: ".toList ++ quoted given ++ " (choose from ".toList ++
    joinWith ", " (choices.map fun c => quoted c.toList) ++ [')']

end ModuleSplit.Command
