-- Texts are lists of characters: every rule of this library reads them from the front, so its
-- recursions are recursions on the data.

namespace ModuleSplit

abbrev Text := List Char

namespace Text

def splitOn (sep : Char) : Text → List Text
  | [] => [[]]
  | c :: rest =>
    if c = sep then [] :: splitOn sep rest
    else match splitOn sep rest with
      | [] => [[c]]
      | piece :: pieces => (c :: piece) :: pieces

def lines (t : Text) : List Text := splitOn '\n' t

def unlines (ls : List Text) : Text := List.intercalate ['\n'] ls

def joinWith (sep : String) (ts : List Text) : Text := List.intercalate sep.toList ts

def cut (sep : Char) : Text → Text × Option Text
  | [] => ([], none)
  | c :: rest =>
    if c = sep then ([], some rest)
    else let (before, after) := cut sep rest; (c :: before, after)

def trimLeftBy (p : Char → Bool) (t : Text) : Text := t.dropWhile p

def trimRightBy (p : Char → Bool) (t : Text) : Text := (t.reverse.dropWhile p).reverse

def trimBy (p : Char → Bool) (t : Text) : Text := trimRightBy p (trimLeftBy p t)

def startsWith (t : Text) (lead : String) : Bool := lead.toList.isPrefixOf t

def endsWith (t : Text) (tail : String) : Bool := tail.toList.isSuffixOf t

def after? (lead : Text) (t : Text) : Option Text := lead.isPrefixOf? t

def dropLead? (lead : String) (t : Text) : Option Text := after? lead.toList t

def occursIn (needle : Text) : Text → Bool
  | [] => needle.isEmpty
  | c :: rest => needle.isPrefixOf (c :: rest) || occursIn needle rest

def holds (t : Text) (needle : String) : Bool := occursIn needle.toList t

def replaceFirst (old new : Text) : Text → Text
  | [] => if old.isEmpty then new else []
  | c :: rest =>
    match after? old (c :: rest) with
    | some tail => new ++ tail
    | none => c :: replaceFirst old new rest

def countChar (c : Char) (t : Text) : Nat := t.count c

def compare : Text → Text → Ordering
  | [], [] => .eq
  | [], _ :: _ => .lt
  | _ :: _, [] => .gt
  | a :: as, b :: bs =>
    if a.val < b.val then .lt else if b.val < a.val then .gt else compare as bs

def le (a b : Text) : Bool := compare a b != .gt

def ofNat (n : Nat) : Text := (Nat.repr n).toList

def ofInt (i : Int) : Text := (Int.repr i).toList

def padLeft (width : Nat) (fill : Char) (t : Text) : Text :=
  List.replicate (width - t.length) fill ++ t

end Text

def distinct [DecidableEq α] : List α → List α
  | [] => []
  | a :: rest => a :: (distinct rest).filter (· ≠ a)

end ModuleSplit
