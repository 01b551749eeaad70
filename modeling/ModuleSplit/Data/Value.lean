import ModuleSplit.Calendar.Timestamp
import ModuleSplit.Data.Double

namespace ModuleSplit

inductive Key where
  | text (t : Text)
  | null
  | bool (b : Bool)
  | int (i : Int)
  | float (d : Double)
  | time (t : Timestamp)
  | bytes (b : Bytes)
  deriving DecidableEq, Repr

inductive Value where
  | null
  | bool (b : Bool)
  | int (i : Int)
  | float (d : Double)
  | text (t : Text)
  | time (t : Timestamp)
  | bytes (b : Bytes)
  | list (items : List Value)
  | dict (entries : List (Key × Value))
  -- each of them once
  | set (members : List Key)
  | pair (first second : Value)
  -- the list or mapping around this place, `level` of them further out
  | enclosing (level : Nat) (isList : Bool)
  deriving Repr, Inhabited

abbrev Entries := List (Key × Value)

namespace Key

def ofString (s : String) : Key := .text s.toList

def toValue : Key → Value
  | .text t => .text t
  | .null => .null
  | .bool b => .bool b
  | .int i => .int i
  | .float d => .float d
  | .time t => .time t
  | .bytes b => .bytes b

-- Keys of the same value are the same key, whatever their kinds.
def identity : Key → Key
  | .bool b => .int (if b then 1 else 0)
  | .float d => match d.integer? with
    | some i => .int i
    | none => .float d
  | .time t => .time t.universal
  | k => k

end Key

namespace Entries

def get? (entries : Entries) (key : Key) : Option Value :=
  (entries.find? (·.1.identity == key.identity)).map (·.2)

def find? (entries : Entries) (name : String) : Option Value := get? entries (.ofString name)

def has (entries : Entries) (key : Key) : Bool := entries.any (·.1.identity == key.identity)

-- The key that was there first stays.
def put : Entries → Key → Value → Entries
  | [], key, value => [(key, value)]
  | (k, v) :: rest, key, value =>
    if k.identity = key.identity then (k, value) :: rest else (k, v) :: put rest key value

def ofPairs (pairs : List (Key × Value)) : Entries :=
  pairs.foldl (fun entries (k, v) => put entries k v) []

end Entries

namespace Value

def ofString (s : String) : Value := .text s.toList

def ofNat (n : Nat) : Value := .int n

def texts (ts : List Text) : Value := .list (ts.map .text)

def object (fields : List (String × Value)) : Value :=
  .dict (fields.map fun (name, v) => (.ofString name, v))

def ofOption (f : α → Value) : Option α → Value
  | none => .null
  | some a => f a

def isTruthy : Value → Bool
  | .null => false
  | .bool b => b
  | .int i => i != 0
  | .float d => !d.isZero
  | .text t => !t.isEmpty
  | .bytes b => !b.isEmpty
  | .list items => !items.isEmpty
  | .dict entries => !entries.isEmpty
  | .set members => !members.isEmpty
  | .time _ | .pair _ _ | .enclosing _ _ => true

def asText? : Value → Option Text
  | .text t => some t
  | _ => none

def entries? : Value → Option Entries
  | .dict entries => some entries
  | _ => none

def isDict (v : Value) : Bool := v.entries?.isSome

def key? : Value → Option Key
  | .text t => some (.text t)
  | .null => some .null
  | .bool b => some (.bool b)
  | .int i => some (.int i)
  | .float d => some (.float d)
  | .time t => some (.time t)
  | .bytes b => some (.bytes b)
  | .list _ | .dict _ | .set _ | .pair _ _ | .enclosing _ _ => none

mutual

-- Puts the whole in the places that return to it.
def unfoldAt (whole : Value) (level : Nat) : Value → Value
  | .enclosing n isList => if n = level then whole else .enclosing n isList
  | .list items => .list (unfoldItems whole (level + 1) items)
  | .dict entries => .dict (unfoldEntries whole (level + 1) entries)
  | .pair a b => .pair (unfoldAt whole level a) (unfoldAt whole level b)
  | v => v

def unfoldItems (whole : Value) (level : Nat) : List Value → List Value
  | [] => []
  | v :: rest => unfoldAt whole level v :: unfoldItems whole level rest

def unfoldEntries (whole : Value) (level : Nat) : List (Key × Value) → List (Key × Value)
  | [] => []
  | (k, v) :: rest => (k, unfoldAt whole level v) :: unfoldEntries whole level rest

end

def opened (depth : Nat) (v : Value) : Value :=
  match depth with
  | 0 => v
  | depth + 1 => match v with
    | .list items => .list (items.map fun item => opened depth (unfoldAt v 0 item))
    | .dict entries => .dict (entries.map fun (k, item) => (k, opened depth (unfoldAt v 0 item)))
    | _ => v

mutual

def holdsItself : Value → Bool
  | .enclosing _ _ => true
  | .list items => itemHoldsItself items
  | .dict entries => entryHoldsItself entries
  | .pair a b => holdsItself a || holdsItself b
  | _ => false

def itemHoldsItself : List Value → Bool
  | [] => false
  | v :: rest => holdsItself v || itemHoldsItself rest

def entryHoldsItself : List (Key × Value) → Bool
  | [] => false
  | (_, v) :: rest => holdsItself v || entryHoldsItself rest

end

end Value

namespace Entries

-- Where both sides have a mapping they are merged, everywhere else the later side wins.
mutual

def overlay (earlier : Value) (later : Value) : Value :=
  match earlier, later with
  | .dict a, .dict b => .dict (merge a b)
  | _, v => v

def merge (a : Entries) : Entries → Entries
  | [] => a
  | (key, v) :: rest =>
    let v := match get? a key with
      | some old => overlay old v
      | none => v
    merge (put a key v) rest

end

-- Merges from the left. Values that count as nothing are passed over, others must be mappings.
def mergeAll (values : List Value) : Result Entries :=
  values.foldlM (fun merged v =>
    if !v.isTruthy then .ok merged
    else match v with
      | .dict entries => .ok (merge merged entries)
      | _ => .error .missingMember) []

end Entries

end ModuleSplit
