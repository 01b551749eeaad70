import ModuleSplit.Data.Value

namespace ModuleSplit

namespace Utf8

def readingSize : Nat := 4096

def pieceSize : Nat := 8192

def decodePart (bytes : Bytes) : Except DecodeFailure (Text × Bytes) :=
  match Encoding.utf8.decode bytes with
  | .ok t => .ok (t, [])
  | .error f =>
    if f.reason = .unexpectedEnd then
      (Encoding.utf8.decode (bytes.take f.first)).map fun t => (t, bytes.drop f.first)
    else .error f

-- A file that is read from one end to the other, a fixed number of characters at a time.
structure Stream where
  rest : Bytes
  -- the beginning of a character
  broken : Bytes := []
  -- a carriage return that may be the first half of a line break
  halfBreak : Bool := false
  -- characters that have not been read yet
  ready : Text := []
  -- sizes of the last piece
  bytes : Nat := 0
  chars : Nat := 0

namespace Stream

def nextSize (s : Stream) (wanted : Nat) : Nat :=
  max pieceSize (if s.chars = 0 then 0 else s.bytes * wanted / s.chars)

def breaksIn (s : Stream) (t : Text) : Text × Bool :=
  let t := if s.halfBreak then '\r' :: t else t
  if t.getLast? = some '\r' then (Text.plainNewlines t.dropLast, true)
  else (Text.plainNewlines t, false)

def fetch (s : Stream) (wanted : Nat) : Except DecodeFailure Stream := do
  let piece := s.rest.take (s.nextSize wanted)
  let (t, broken) ← decodePart (s.broken ++ piece)
  let (t, half) := s.breaksIn t
  return {
    rest := s.rest.drop (s.nextSize wanted)
    broken := broken
    halfBreak := half
    ready := s.ready ++ t
    bytes := piece.length
    chars := t.length }

def finish (s : Stream) : Except DecodeFailure Stream := do
  let _ ← Encoding.utf8.decode s.broken
  return {s with
    broken := []
    halfBreak := false
    ready := if s.halfBreak then s.ready ++ ['\n'] else s.ready }

def fill (fuel : Nat) (s : Stream) : Except DecodeFailure Stream := do
  match fuel with
  | 0 => return s
  | fuel + 1 =>
    if readingSize ≤ s.ready.length then return s
    else if s.rest.isEmpty then s.finish
    else fill fuel (← s.fetch (readingSize - s.ready.length))

def readAll (fuel : Nat) (s : Stream) : Text × Option DecodeFailure :=
  match fuel with
  | 0 => ([], none)
  | fuel + 1 =>
    match s.fill (s.rest.length + 2) with
    | .error f => ([], some f)
    | .ok s =>
      if s.ready.length < readingSize then (s.ready, none)
      else
        let (t, f) := readAll fuel {s with ready := s.ready.drop readingSize}
        (s.ready.take readingSize ++ t, f)

end Stream

def readStream (bytes : Bytes) : Text × Option DecodeFailure :=
  ({rest := bytes} : Stream).readAll (bytes.length + 2)

end Utf8

-- Texts to bytes and back, either of which may be refused.
structure Codec where
  encode : Text → Result Bytes
  decode : Bytes → Result Text
  -- reads a whole file, which forgives the beginning of a mark that is cut off
  decodeFile : Bytes → Result Text
  -- reads a whole file, with a sign in place of what cannot be decoded
  decodeLossy : Bytes → Result Text
  -- refused before any file is opened
  usable : Result PUnit := .ok ⟨⟩

namespace Codec

def ofEncoding (e : Encoding) : Codec where
  encode t := (e.encode t).mapError .encode
  decode bytes := (e.decode bytes).mapError .decode
  decodeFile bytes := (e.decodeFile bytes).mapError .decode
  decodeLossy bytes := .ok (e.decodeFileLossy bytes)

def refusing (f : Failure) : Codec where
  encode _ := .error f
  decode _ := .error f
  decodeFile _ := .error f
  decodeLossy _ := .error f

def utf8 : Codec := ofEncoding .utf8

-- The encoding that a setting names. Without a name files are read as UTF-8, and nothing can be
-- written.
def ofValue : Value → Codec
  | .text name => match Encoding.named? name with
    | some e => ofEncoding e
    | none => refusing (.unknownEncoding name)
  | .null => {refusing .wrongType with
      decodeFile := utf8.decodeFile
      decodeLossy := utf8.decodeLossy}
  | _ => {refusing .wrongType with usable := .error .wrongType}

end Codec

end ModuleSplit
