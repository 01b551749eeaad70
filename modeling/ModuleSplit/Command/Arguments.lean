import ModuleSplit.Command.Grammar

namespace ModuleSplit.Command

open Text

structure Attached where
  equals : Bool
  value : Text
  deriving DecidableEq, Repr

inductive Sign where
  | operand
  | separator
  | unknown
  | option (o : Opt) (spelling : Text) (attached : Option Attached)
  deriving DecidableEq, Repr

def Sign.isOption : Sign → Bool
  | .unknown | .option _ _ _ => true
  | .operand | .separator => false

structure Argument where
  text : Text
  sign : Sign

def Argument.isOption (a : Argument) : Bool := a.sign.isOption

def looksNegative (t : Text) : Bool :=
  match t with
  | '-' :: number =>
    let number := if endsWith number "\n" then number.dropLast else number
    match cut '.' number with
    | (whole, none) => !whole.isEmpty && whole.all fun c => (decimalValue? c).isSome
    | (whole, some fraction) =>
      !fraction.isEmpty && (whole ++ fraction).all fun c => (decimalValue? c).isSome
  | _ => false

namespace Grammar

def candidates (g : Grammar) (t : Text) : List (Text × Sign) :=
  match t with
  | '-' :: '-' :: _ =>
    let (lead, value) := cut '=' t
    (g.spellings.filter fun (name, _) => lead.isPrefixOf name).map fun (name, o) =>
      (name, .option o name (value.map (⟨true, ·⟩)))
  | _ =>
    g.spellings.filterMap fun (name, o) =>
      if name = t.take 2 then some (name, .option o name (some ⟨false, t.drop 2⟩))
      else if t.isPrefixOf name then some (name, .option o name none)
      else none

def ambiguous (t : Text) (found : List (Text × Sign)) : Stop :=
  .wrong ("ambiguous option: ".toList ++ t ++ " could match ".toList ++
    joinWith ", " (found.map (·.1)))

def spelled? (g : Grammar) (t : Text) : Option Sign :=
  match g.find? t, cut '=' t with
  | some o, _ => some (.option o t none)
  | none, (name, some value) => (g.find? name).map fun o => .option o name (some ⟨true, value⟩)
  | none, (_, none) => none

-- Negative numbers and whatever holds a blank are operands, unless they are options.
def sign (g : Grammar) (t : Text) : Except Stop Sign :=
  match t with
  | [] | ['-'] => .ok .operand
  | '-' :: _ =>
    match g.spelled? t with
    | some s => .ok s
    | none =>
      match g.candidates t with
      | [(_, s)] => .ok s
      | [] => .ok (if looksNegative t || t.contains ' ' then .operand else .unknown)
      | found => .error (ambiguous t found)
  | _ => .ok .operand

def signs (g : Grammar) : List Text → Except Stop (List Argument)
  | [] => .ok []
  | t :: rest =>
    if t = "--".toList then .ok (⟨t, .separator⟩ :: rest.map (⟨·, .operand⟩))
    else do
      let s ← g.sign t
      return ⟨t, s⟩ :: (← g.signs rest)

end Grammar

structure Parsed where
  -- newest first
  bindings : List (String × Text) := []
  -- what nobody asked for
  extras : List Text := []
  -- the operand, or the command with its arguments
  operand : Option (List Text) := none

namespace Parsed

def value? (p : Parsed) (key : String) : Option Text := p.bindings.lookup key

def has (p : Parsed) (key : String) : Bool := (p.value? key).isSome

def bind (p : Parsed) (key : String) (t : Text) : Parsed := {p with bindings := (key, t) :: p.bindings}

def perform (p : Parsed) (o : Opt) (given : Text) : Except Stop Parsed :=
  match o.effect with
  | .showHelp => .error .help
  | .showVersion => .error .version
  | .turnOn key => .ok (p.bind key [])
  | .take key _ choices =>
    if choices.isEmpty || choices.any (·.toList = given) then .ok (p.bind key given)
    else Stop.ofOption o (badChoice given choices)

end Parsed

structure Use where
  found : List (Opt × Text)
  leftover : Option Text := none

def ignored {α : Type} (o : Opt) (value : Text) : Except Stop α :=
  Stop.ofOption o ("ignored explicit argument ".toList ++ quoted value)

def startsWithMinus (t : Text) : Bool := t.head? == some '-'

def together (g : Grammar) (o : Opt) : Text → Except Stop (List Opt × Option (Opt × Option Text) × Option Text)
  | [] => .ok ([], some (o, none), none)
  | c :: rest =>
    match g.find? ['-', c] with
    | none => .ok ([o], none, some ('-' :: c :: rest))
    | some next =>
      match next.label?, rest with
      | some _, [] => .ok ([o], some (next, none), none)
      | some _, '=' :: value => .ok ([o], some (next, some value), none)
      | some _, value => .ok ([o], some (next, some value), none)
      | none, '=' :: value => ignored next value
      | none, rest =>
        if startsWithMinus rest then ignored next rest
        else do
          let (found, last, leftover) ← together g next rest
          return (o :: found, last, leftover)

def takeOption (g : Grammar) (o : Opt) (spelling : Text) (attached : Option Attached)
    (rest : List Argument) : Except Stop (Use × List Argument) := do
  let fromNext (o : Opt) : Except Stop (Text × List Argument) :=
    match o.label?, rest with
    | none, _ => .ok ([], rest)
    | some _, ⟨t, .operand⟩ :: rest => .ok (t, rest)
    | some _, _ => Stop.ofOption o "expected one argument".toList
  match attached with
  | none =>
    let (value, rest) ← fromNext o
    return (⟨[(o, value)], none⟩, rest)
  | some ⟨equals, value⟩ =>
    if o.label?.isSome then return (⟨[(o, value)], none⟩, rest)
    else if startsWith spelling "--" || value.isEmpty || equals || startsWithMinus value then
      ignored o value
    else
      let (found, last, leftover) ← together g o value
      let before := found.map fun o => (o, ([] : Text))
      match last with
      | none => return (⟨before, leftover⟩, rest)
      | some (o, some value) => return (⟨before ++ [(o, value)], leftover⟩, rest)
      | some (o, none) =>
        let (value, rest) ← fromNext o
        return (⟨before ++ [(o, value)], leftover⟩, rest)

def takeOperand (g : Grammar) (args : List Argument) : Option (List Text × List Argument) :=
  let isSeparator (a : Argument) : Bool := a.sign = .separator
  let before := args.takeWhile isSeparator
  match g.operand, args.dropWhile isSeparator with
  | .none, _ | _, [] => none
  | .value _ _, a :: rest =>
    if a.isOption then none
    else
      let taken := before ++ a :: rest.takeWhile isSeparator
      some ((taken.map (·.text)).erase "--".toList, rest.dropWhile isSeparator)
  | .command _ _ _ _, a :: rest =>
    if a.isOption then none else some ((before ++ a :: rest).map (·.text), [])

def acceptOperand (g : Grammar) (p : Parsed) (taken : List Text) : Except Stop Parsed :=
  match g.operand, taken with
  | .command key _ _ commands, name :: _ =>
    let names := commands.map (·.1)
    if names.any (·.toList = name) then .ok {p with operand := some taken}
    else .error (.wrong ("argument ".toList ++ key.toList ++ ": ".toList ++ badChoice name names))
  | _, _ => .ok {p with operand := some taken}

def tryOperand (g : Grammar) (p : Parsed) (args : List Argument) :
    Except Stop (Option (Parsed × List Argument)) := do
  if p.operand.isSome then return none
  match takeOperand g args with
  | none => return none
  | some (taken, rest) => return some (← acceptOperand g p taken, rest)

def applyUse (p : Parsed) (u : Use) : Except Stop Parsed := do
  let p : Parsed := {p with extras := p.extras ++ u.leftover.toList}
  u.found.foldlM (fun p (o, value) => p.perform o value) p

-- Operands and options by turns, as long as there are options; then the rest. Every turn takes at
-- least one argument.
def readFrom (g : Grammar) (fuel : Nat) (p : Parsed) (args : List Argument) : Except Stop Parsed := do
  match fuel with
  | 0 => return p
  | fuel + 1 =>
    match args with
    | ⟨t, .unknown⟩ :: rest => readFrom g fuel {p with extras := p.extras ++ [t]} rest
    | ⟨_, .option o spelling attached⟩ :: rest =>
      let (use, rest) ← takeOption g o spelling attached rest
      readFrom g fuel (← applyUse p use) rest
    | args =>
      match ← tryOperand g p args with
      | some (p, rest) => readFrom g fuel p rest
      | none =>
        let skipped := args.takeWhile (!·.isOption)
        let p := {p with extras := p.extras ++ skipped.map (·.text)}
        readFrom g fuel p (args.dropWhile (!·.isOption))

def requireOperand (g : Grammar) (p : Parsed) : Except Stop PUnit :=
  let needed (key : String) : Except Stop PUnit :=
    if p.operand.isSome then .ok ⟨⟩
    else .error (.wrong (("the following arguments are required: " ++ key).toList))
  match g.operand with
  | .value key _ | .command key true _ _ => needed key
  | .none | .command _ false _ _ => .ok ⟨⟩

def Grammar.read (g : Grammar) (args : List Text) : Except Stop Parsed := do
  let p ← readFrom g (args.length + 1) {} (← g.signs args)
  requireOperand g p
  return p

end ModuleSplit.Command
