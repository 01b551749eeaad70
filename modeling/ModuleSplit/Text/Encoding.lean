import ModuleSplit.Text.Class

namespace ModuleSplit

abbrev Bytes := List UInt8

inductive Encoding where
  | utf8
  -- UTF-8 that starts with a byte order mark
  | utf8Marked
  | latin1
  | ascii
  | utf16le
  deriving DecidableEq, Repr

inductive CodecReason where
  | invalidStart
  | invalidContinuation
  | unexpectedEnd
  | truncated
  | illegalEncoding
  | illegalSurrogate
  | notBelow (bound : Nat)
  deriving DecidableEq, Repr

def CodecReason.message : CodecReason → String
  | .invalidStart => "invalid start byte"
  | .invalidContinuation => "invalid continuation byte"
  | .unexpectedEnd => "unexpected end of data"
  | .truncated => "truncated data"
  | .illegalEncoding => "illegal encoding"
  | .illegalSurrogate => "illegal UTF-16 surrogate"
  | .notBelow bound => s!"ordinal not in range({bound})"

-- The positions `first` up to but excluding `past` cannot be decoded; `byte` is at `first`.
structure DecodeFailure where
  codec : String
  byte : UInt8
  first : Nat
  past : Nat
  reason : CodecReason
  deriving DecidableEq, Repr

-- The positions `first` up to but excluding `past` cannot be encoded; `char` is at `first`.
structure EncodeFailure where
  codec : String
  char : Char
  first : Nat
  past : Nat
  reason : CodecReason
  deriving DecidableEq, Repr

def positions (first past : Nat) : String :=
  if past ≤ first + 1 then s!"in position {first}" else s!"in position {first}-{past - 1}"

def DecodeFailure.message (f : DecodeFailure) : String :=
  let what :=
    if f.past ≤ f.first + 1 then "byte 0x" ++ String.ofList (Text.hexText 2 f.byte.toNat)
    else "bytes"
  s!"'{f.codec}' codec can't decode {what} {positions f.first f.past}: {f.reason.message}"

def escapedChar (c : Char) : Text :=
  let n := c.toNat
  if n < 0x100 then ['\\', 'x'] ++ Text.hexText 2 n
  else if n < 0x10000 then ['\\', 'u'] ++ Text.hexText 4 n
  else ['\\', 'U'] ++ Text.hexText 8 n

def EncodeFailure.message (f : EncodeFailure) : String :=
  let what :=
    if f.past ≤ f.first + 1 then "character '" ++ String.ofList (escapedChar f.char) ++ "'"
    else "characters"
  s!"'{f.codec}' codec can't encode {what} {positions f.first f.past}: {f.reason.message}"

inductive Decoded where
  | char (c : Char) (width : Nat)
  | bad (width : Nat) (reason : CodecReason)
  deriving DecidableEq, Repr

namespace Utf8

def isTail (b : UInt8) : Bool := 0x80 ≤ b && b < 0xc0

def low (b : UInt8) : Nat := b.toNat % 0x40

def encodeChar (c : Char) : Bytes :=
  let n := c.toNat
  if n < 0x80 then [n.toUInt8]
  else if n < 0x800 then [(0xc0 + n / 0x40).toUInt8, (0x80 + n % 0x40).toUInt8]
  else if n < 0x10000 then
    [(0xe0 + n / 0x1000).toUInt8, (0x80 + n / 0x40 % 0x40).toUInt8, (0x80 + n % 0x40).toUInt8]
  else
    [(0xf0 + n / 0x40000).toUInt8, (0x80 + n / 0x1000 % 0x40).toUInt8,
      (0x80 + n / 0x40 % 0x40).toUInt8, (0x80 + n % 0x40).toUInt8]

def encode (t : Text) : Bytes := t.flatMap encodeChar

def size (t : Text) : Nat := (encode t).length

def secondAllowed (a b : UInt8) : Bool :=
  isTail b && !(a == 0xe0 && b < 0xa0) && !(a == 0xed && b ≥ 0xa0) && !(a == 0xf0 && b < 0x90) &&
    !(a == 0xf4 && b ≥ 0x90)

def unit (a : UInt8) (rest : Bytes) : Decoded :=
  if a < 0x80 then .char (Char.ofNat a.toNat) 1
  else if a < 0xc2 then .bad 1 .invalidStart
  else if a < 0xe0 then
    match rest with
    | [] => .bad 1 .unexpectedEnd
    | b :: _ =>
      if isTail b then .char (Char.ofNat ((a.toNat - 0xc0) * 0x40 + low b)) 2
      else .bad 1 .invalidContinuation
  else if a < 0xf0 then
    match rest with
    | [] => .bad 1 .unexpectedEnd
    | b :: more =>
      if !secondAllowed a b then .bad 1 .invalidContinuation
      else match more with
        | [] => .bad 2 .unexpectedEnd
        | c :: _ =>
          if isTail c then
            .char (Char.ofNat ((a.toNat - 0xe0) * 0x1000 + low b * 0x40 + low c)) 3
          else .bad 2 .invalidContinuation
  else if a < 0xf5 then
    match rest with
    | [] => .bad 1 .unexpectedEnd
    | b :: more =>
      if !secondAllowed a b then .bad 1 .invalidContinuation
      else match more with
        | [] => .bad 2 .unexpectedEnd
        | c :: more =>
          if !isTail c then .bad 2 .invalidContinuation
          else match more with
            | [] => .bad 3 .unexpectedEnd
            | d :: _ =>
              if isTail d then
                .char (Char.ofNat
                  ((a.toNat - 0xf0) * 0x40000 + low b * 0x1000 + low c * 0x40 + low d)) 4
              else .bad 3 .invalidContinuation
  else .bad 1 .invalidStart

end Utf8

namespace Utf16

def encodeChar (c : Char) : Bytes :=
  let pair (n : Nat) : Bytes := [(n % 0x100).toUInt8, (n / 0x100).toUInt8]
  let n := c.toNat
  if n < 0x10000 then pair n
  else pair (0xd800 + (n - 0x10000) / 0x400) ++ pair (0xdc00 + (n - 0x10000) % 0x400)

def unit (a : UInt8) (rest : Bytes) : Decoded :=
  match rest with
  | [] => .bad 1 .truncated
  | b :: more =>
    let n := a.toNat + b.toNat * 0x100
    if n < 0xd800 || n ≥ 0xe000 then .char (Char.ofNat n) 2
    else if n ≥ 0xdc00 then .bad 2 .illegalEncoding
    else match more with
      | c :: d :: _ =>
        let m := c.toNat + d.toNat * 0x100
        if 0xdc00 ≤ m && m < 0xe000 then
          .char (Char.ofNat (0x10000 + (n - 0xd800) * 0x400 + (m - 0xdc00))) 4
        else .bad 2 .illegalSurrogate
      | _ => .bad (2 + more.length) .unexpectedEnd

end Utf16

def asciiUnit (a : UInt8) (_ : Bytes) : Decoded :=
  if a < 0x80 then .char (Char.ofNat a.toNat) 1 else .bad 1 (.notBelow 128)

def latin1Unit (a : UInt8) (_ : Bytes) : Decoded := .char (Char.ofNat a.toNat) 1

-- Decodes from the byte at `index`; the next `skip` bytes belong to a character already read.
def decodeWith (codec : String) (unit : UInt8 → Bytes → Decoded) (skip index : Nat) :
    Bytes → Except DecodeFailure Text
  | [] => .ok []
  | a :: rest =>
    match skip with
    | k + 1 => decodeWith codec unit k (index + 1) rest
    | 0 =>
      match unit a rest with
      | .char c width => (decodeWith codec unit (width - 1) (index + 1) rest).map (c :: ·)
      | .bad width reason => .error ⟨codec, a, index, index + width, reason⟩

def decodeLossyWith (unit : UInt8 → Bytes → Decoded) (skip : Nat) : Bytes → Text
  | [] => []
  | a :: rest =>
    match skip with
    | k + 1 => decodeLossyWith unit k rest
    | 0 =>
      match unit a rest with
      | .char c width => c :: decodeLossyWith unit (width - 1) rest
      | .bad width _ => '�' :: decodeLossyWith unit (width - 1) rest

def byteOrderMark : Bytes := [0xef, 0xbb, 0xbf]

def dropMark (bytes : Bytes) : Bytes := (byteOrderMark.isPrefixOf? bytes).getD bytes

def overflowLength (bound : Nat) (t : Text) : Nat := (t.takeWhile (bound ≤ ·.toNat)).length

def encodeBelow (codec : String) (bound index : Nat) : Text → Except EncodeFailure Bytes
  | [] => .ok []
  | c :: rest =>
    if c.toNat < bound then (encodeBelow codec bound (index + 1) rest).map (c.toNat.toUInt8 :: ·)
    else .error ⟨codec, c, index, index + 1 + overflowLength bound rest, .notBelow bound⟩

namespace Encoding

-- A name in small letters, with `_` for whatever separates its words.
def normalized (name : Text) : Text :=
  let isWord (c : Char) := c.isAlphanum || c == '.'
  let spaced := (Text.lowerAscii name).map fun c => if isWord c then c else ' '
  Text.joinWith "_" ((Text.splitOn ' ' spaced).filter (!·.isEmpty))

def names : Encoding → List String
  | .utf8 => ["utf_8", "u8", "utf", "utf8", "utf8_ucs2", "utf8_ucs4", "cp65001"]
  | .utf8Marked => ["utf_8_sig"]
  | .latin1 => ["latin_1", "8859", "cp819", "csisolatin1", "ibm819", "iso8859", "iso8859_1",
      "iso_8859_1", "iso_8859_1_1987", "iso_ir_100", "l1", "latin", "latin1"]
  | .ascii => ["ascii", "646", "ansi_x3.4_1968", "ansi_x3_4_1968", "ansi_x3.4_1986", "cp367",
      "csascii", "ibm367", "iso646_us", "iso_646.irv_1991", "iso_ir_6", "us", "us_ascii"]
  | .utf16le => ["utf_16_le", "unicodelittleunmarked", "utf_16le"]

def named? (name : Text) : Option Encoding :=
  [Encoding.utf8, .utf8Marked, .latin1, .ascii, .utf16le].find? fun e =>
    e.names.any (·.toList == normalized name)

def encode (e : Encoding) (t : Text) : Except EncodeFailure Bytes :=
  match e with
  | .utf8 => .ok (Utf8.encode t)
  | .utf8Marked => .ok (byteOrderMark ++ Utf8.encode t)
  | .latin1 => encodeBelow "latin-1" 256 0 t
  | .ascii => encodeBelow "ascii" 128 0 t
  | .utf16le => .ok (t.flatMap Utf16.encodeChar)

def decode (e : Encoding) (bytes : Bytes) : Except DecodeFailure Text :=
  match e with
  | .utf8 => decodeWith "utf-8" Utf8.unit 0 0 bytes
  | .utf8Marked => decodeWith "utf-8" Utf8.unit 0 0 (dropMark bytes)
  | .latin1 => decodeWith "latin-1" latin1Unit 0 0 bytes
  | .ascii => decodeWith "ascii" asciiUnit 0 0 bytes
  | .utf16le => decodeWith "utf-16-le" Utf16.unit 0 0 bytes

def withoutPartialMark (e : Encoding) (bytes : Bytes) : Bytes :=
  if e = .utf8Marked ∧ bytes.length < 3 ∧ bytes.isPrefixOf byteOrderMark then [] else bytes

def decodeFile (e : Encoding) (bytes : Bytes) : Except DecodeFailure Text :=
  e.decode (e.withoutPartialMark bytes)

def decodeFileLossy (e : Encoding) (bytes : Bytes) : Text :=
  let bytes := e.withoutPartialMark bytes
  match e with
  | .utf8 => decodeLossyWith Utf8.unit 0 bytes
  | .utf8Marked => decodeLossyWith Utf8.unit 0 (dropMark bytes)
  | .latin1 => decodeLossyWith latin1Unit 0 bytes
  | .ascii => decodeLossyWith asciiUnit 0 bytes
  | .utf16le => decodeLossyWith Utf16.unit 0 bytes

end Encoding

namespace Text

def plainNewlines : Text → Text
  | [] => []
  | '\r' :: '\n' :: rest => '\n' :: plainNewlines rest
  | '\r' :: rest => '\n' :: plainNewlines rest
  | c :: rest => c :: plainNewlines rest

def foldCrLf : Text → Text
  | [] => []
  | '\r' :: '\n' :: rest => '\n' :: foldCrLf rest
  | c :: rest => c :: foldCrLf rest

def isLineEnd (c : Char) : Bool :=
  let n := c.toNat
  (0xa ≤ n && n ≤ 0xd) || (0x1c ≤ n && n ≤ 0x1e) || n == 0x85 || n == 0x2028 || n == 0x2029

def lineCount (t : Text) : Nat :=
  let breaks := t.countP isLineEnd
  match t.getLast? with
  | none => 0
  | some c => if isLineEnd c then breaks else breaks + 1

end Text

end ModuleSplit
