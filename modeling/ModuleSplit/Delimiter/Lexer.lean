import ModuleSplit.Delimiter.Literal

namespace ModuleSplit

-- A lexer that counts every delimiter, also those inside literals.
structure RawCursor where
  inBlockComment : Bool := false
  deriving DecidableEq, Repr

namespace RawCursor

def opensComment (trimmed : Text) : Bool :=
  match Text.dropLead? "/*" trimmed with
  | some inner => !Text.holds inner "*/"
  | none => false

def next (s : RawCursor) (line : Text) : RawCursor :=
  if s.inBlockComment then ⟨!Text.holds line "*/"⟩ else ⟨opensComment (Text.trim line)⟩

def looksLikeComment (trimmed : Text) : Bool :=
  Text.startsWith trimmed "//" || Text.startsWith trimmed "/*" || Text.startsWith trimmed "*"

def feed (s : RawCursor) (line : Text) : LineSummary × RawCursor :=
  let code := if s.inBlockComment || looksLikeComment (Text.trim line) then [] else line
  (LineSummary.ofTally line code (Tally.ofText line) (!s.inBlockComment) false, s.next line)

end RawCursor

inductive Lexer where
  | literal (cursor : Cursor)
  | raw (cursor : RawCursor)
  deriving DecidableEq, Repr

namespace Lexer

def start : DelimiterMode → Lexer
  | .literalAware => .literal {}
  | .raw => .raw {}

def feed (lexer : Lexer) (line : Text) : LineSummary × Lexer :=
  match lexer with
  | .literal s => let (summary, next) := s.feed line; (summary, .literal next)
  | .raw s => let (summary, next) := s.feed line; (summary, .raw next)

def trace (lexer : Lexer) : List Text → List (LineSummary × Lexer)
  | [] => []
  | line :: rest => lexer.feed line :: trace (lexer.feed line).2 rest

end Lexer

def summarize (mode : DelimiterMode) (lines : List Text) : List LineSummary :=
  ((Lexer.start mode).trace lines).map (·.1)

def braceBalance (mode : DelimiterMode) (t : Text) : Int :=
  (summarize mode (Text.lines t)).foldl (fun total s => total + s.braceDelta) 0

def codeText (mode : DelimiterMode) (t : Text) : Text :=
  Text.unlines ((summarize mode (Text.lines t)).map (·.code))

inductive TextFault where
  | empty
  | unclosed (count : Nat)
  | unmatched (count : Nat)
  deriving DecidableEq, Repr

def TextFault.message : TextFault → Text
  | .empty => "file is empty".toList
  | .unclosed count => "unbalanced braces (".toList ++ Text.ofNat count ++ " unclosed '\x7b')".toList
  | .unmatched count => "unbalanced braces (".toList ++ Text.ofNat count ++ " unmatched '\x7d')".toList

-- What every generated text must pass: something is in it, and its braces balance.
def checkText (mode : DelimiterMode) (t : Text) : Option TextFault :=
  if Text.isBlankText t then some .empty
  else match braceBalance mode t with
    | .ofNat 0 => none
    | .ofNat n => some (.unclosed n)
    | .negSucc n => some (.unmatched (n + 1))

end ModuleSplit
