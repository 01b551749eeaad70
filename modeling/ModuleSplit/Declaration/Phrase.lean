import ModuleSplit.Text.Class

namespace ModuleSplit.Phrase

open Text

def blanks? : Text → Option Text
  | c :: rest => if isBlank c then some (dropBlanks rest) else none
  | [] => none

-- No identifier character continues here; a dollar sign does not count as one.
def wordEnds : Text → Bool
  | c :: _ => !isWord c
  | [] => true

def keyword? (word : String) (t : Text) : Option Text := do
  let rest ← dropLead? word t
  if wordEnds rest then some rest else none

def spaced? (word : String) (t : Text) : Option Text := do blanks? (← dropLead? word t)

def skipSpaced (word : String) (t : Text) : Text := (spaced? word t).getD t

def ident? : Text → Option (Text × Text)
  | c :: rest =>
    if isIdentStart c then some (c :: rest.takeWhile isIdentChar, rest.dropWhile isIdentChar)
    else none
  | [] => none

def identName? (t : Text) : Option Text := (ident? t).map (·.1)

def isIdent (t : Text) : Bool :=
  match ident? t with
  | some (_, rest) => rest.isEmpty
  | none => false

def lastLine? (t : Text) : Option Text :=
  let rest := t.dropWhile (· != '\n')
  if rest = [] ∨ rest = ['\n'] then some (t.takeWhile (· != '\n')) else none

-- The first place, from the left, where no word character stands before and the reader succeeds.
def findAtWordStart (read : Text → Option α) (afterWord : Bool) : Text → Option α
  | [] => if afterWord then none else read []
  | c :: rest =>
    match if afterWord then none else read (c :: rest) with
    | some a => some a
    | none => findAtWordStart read (isWord c) rest

def findWord? (read : Text → Option α) (t : Text) : Option α := findAtWordStart read false t

def findAtLineStart (read : Text → Option α) (atStart : Bool) : Text → Option α
  | [] => if atStart then read [] else none
  | c :: rest =>
    match if atStart then read (c :: rest) else none with
    | some a => some a
    | none => findAtLineStart read (c == '\n') rest

def findLine? (read : Text → Option α) (t : Text) : Option α := findAtLineStart read true t

def asDefault? (t : Text) : Option Text := do keyword? "default" (← spaced? "as" t)

def exportDefault? (t : Text) : Option Text := do keyword? "default" (← spaced? "export" t)

def exportDefaultRest? (t : Text) : Option Text := do
  lastLine? (← spaced? "default" (← spaced? "export" t))

def callOpening? (stops : Char → Bool) (t : Text) : Option Text :=
  match t with
  | '(' :: rest => some rest
  | '<' :: rest =>
    match rest.dropWhile (!stops ·) with
    | '(' :: more => if endsWith (trimRight (rest.takeWhile (!stops ·))) ">" then some more else none
    | _ => none
  | _ => none

end ModuleSplit.Phrase

namespace ModuleSplit.Declaration

open Text Phrase

-- A statement goes on over a line break by what its line ends with, or by what the next begins with.
def continuationEnds : List String :=
  ["=>", "&&", "||", "??", "=", ",", "(", "[", "\x7b", ".", "?", ":", "|", "&", "+", "-", "*", "/", "<"]

def continuationStarts : List String :=
  ["?.", "=>", "&&", "||", "??", ".", "|", "&", "?", ":", ")", "]", "\x7d", ",", "+", ">"]

def endsOpen (code : Text) : Bool :=
  let code := trimRight code
  !(endsWith code "++" || endsWith code "--") && continuationEnds.any fun token => endsWith code token

def startsOpen (code : Text) : Bool :=
  let code := dropBlanks code
  !(startsWith code "++" || startsWith code "--") &&
    ((continuationStarts.any fun token => startsWith code token) ||
      (keyword? "extends" code).isSome || (keyword? "implements" code).isSome)

end ModuleSplit.Declaration
