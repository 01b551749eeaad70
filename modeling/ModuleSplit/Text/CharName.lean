import ModuleSplit.Text.Basic

-- The character that a name stands for.

namespace ModuleSplit.Text.CharName

-- Names that begin alike, of code points at one distance from each other.
structure Row where
  lead : String
  first : Nat
  step : Nat
  names : List String

-- Latin, Greek and Cyrillic letters, digits, punctuation, currencies, arrows and operators.
def rows : List Row :=
  [⟨"", 0x20, 1, [
      "SPACE", "EXCLAMATION MARK", "QUOTATION MARK", "NUMBER SIGN", "DOLLAR SIGN",
      "PERCENT SIGN", "AMPERSAND", "APOSTROPHE", "LEFT PARENTHESIS", "RIGHT PARENTHESIS",
      "ASTERISK", "PLUS SIGN", "COMMA", "HYPHEN-MINUS", "FULL STOP", "SOLIDUS"]⟩,
    ⟨"DIGIT ", 0x30, 1, [
      "ZERO", "ONE", "TWO", "THREE", "FOUR", "FIVE", "SIX", "SEVEN", "EIGHT", "NINE"]⟩,
    ⟨"", 0x3a, 1, [
      "COLON", "SEMICOLON", "LESS-THAN SIGN", "EQUALS SIGN", "GREATER-THAN SIGN",
      "QUESTION MARK", "COMMERCIAL AT"]⟩,
    ⟨"LATIN CAPITAL LETTER ", 0x41, 1, [
      "A", "B", "C", "D", "E", "F", "G", "H", "I", "J", "K", "L", "M", "N", "O", "P", "Q", "R",
      "S", "T", "U", "V", "W", "X", "Y", "Z"]⟩,
    ⟨"", 0x5b, 1, [
      "LEFT SQUARE BRACKET", "REVERSE SOLIDUS", "RIGHT SQUARE BRACKET", "CIRCUMFLEX ACCENT",
      "LOW LINE", "GRAVE ACCENT"]⟩,
    ⟨"LATIN SMALL LETTER ", 0x61, 1, [
      "A", "B", "C", "D", "E", "F", "G", "H", "I", "J", "K", "L", "M", "N", "O", "P", "Q", "R",
      "S", "T", "U", "V", "W", "X", "Y", "Z"]⟩,
    ⟨"", 0x7b, 1, [
      "LEFT CURLY BRACKET", "VERTICAL LINE", "RIGHT CURLY BRACKET", "TILDE"]⟩,
    ⟨"", 0xa0, 1, [
      "NO-BREAK SPACE", "INVERTED EXCLAMATION MARK", "CENT SIGN", "POUND SIGN", "CURRENCY SIGN",
      "YEN SIGN", "BROKEN BAR", "SECTION SIGN", "DIAERESIS", "COPYRIGHT SIGN",
      "FEMININE ORDINAL INDICATOR", "LEFT-POINTING DOUBLE ANGLE QUOTATION MARK", "NOT SIGN",
      "SOFT HYPHEN", "REGISTERED SIGN", "MACRON", "DEGREE SIGN", "PLUS-MINUS SIGN",
      "SUPERSCRIPT TWO", "SUPERSCRIPT THREE", "ACUTE ACCENT", "MICRO SIGN", "PILCROW SIGN",
      "MIDDLE DOT", "CEDILLA", "SUPERSCRIPT ONE", "MASCULINE ORDINAL INDICATOR",
      "RIGHT-POINTING DOUBLE ANGLE QUOTATION MARK", "VULGAR FRACTION ONE QUARTER",
      "VULGAR FRACTION ONE HALF", "VULGAR FRACTION THREE QUARTERS", "INVERTED QUESTION MARK"]⟩,
    ⟨"LATIN CAPITAL LETTER ", 0xc0, 1, [
      "A WITH GRAVE", "A WITH ACUTE", "A WITH CIRCUMFLEX", "A WITH TILDE", "A WITH DIAERESIS",
      "A WITH RING ABOVE", "AE", "C WITH CEDILLA", "E WITH GRAVE", "E WITH ACUTE",
      "E WITH CIRCUMFLEX", "E WITH DIAERESIS", "I WITH GRAVE", "I WITH ACUTE",
      "I WITH CIRCUMFLEX", "I WITH DIAERESIS", "ETH", "N WITH TILDE", "O WITH GRAVE",
      "O WITH ACUTE", "O WITH CIRCUMFLEX", "O WITH TILDE", "O WITH DIAERESIS"]⟩,
    ⟨"", 0xd7, 1, [
      "MULTIPLICATION SIGN"]⟩,
    ⟨"LATIN CAPITAL LETTER ", 0xd8, 1, [
      "O WITH STROKE", "U WITH GRAVE", "U WITH ACUTE", "U WITH CIRCUMFLEX", "U WITH DIAERESIS",
      "Y WITH ACUTE", "THORN"]⟩,
    ⟨"LATIN SMALL LETTER ", 0xdf, 1, [
      "SHARP S", "A WITH GRAVE", "A WITH ACUTE", "A WITH CIRCUMFLEX", "A WITH TILDE",
      "A WITH DIAERESIS", "A WITH RING ABOVE", "AE", "C WITH CEDILLA", "E WITH GRAVE",
      "E WITH ACUTE", "E WITH CIRCUMFLEX", "E WITH DIAERESIS", "I WITH GRAVE", "I WITH ACUTE",
      "I WITH CIRCUMFLEX", "I WITH DIAERESIS", "ETH", "N WITH TILDE", "O WITH GRAVE",
      "O WITH ACUTE", "O WITH CIRCUMFLEX", "O WITH TILDE", "O WITH DIAERESIS"]⟩,
    ⟨"", 0xf7, 1, [
      "DIVISION SIGN"]⟩,
    ⟨"LATIN SMALL LETTER ", 0xf8, 1, [
      "O WITH STROKE", "U WITH GRAVE", "U WITH ACUTE", "U WITH CIRCUMFLEX", "U WITH DIAERESIS",
      "Y WITH ACUTE", "THORN", "Y WITH DIAERESIS"]⟩,
    ⟨"LATIN CAPITAL LETTER ", 0x100, 2, [
      "A WITH MACRON", "A WITH BREVE", "A WITH OGONEK", "C WITH ACUTE", "C WITH CIRCUMFLEX",
      "C WITH DOT ABOVE", "C WITH CARON", "D WITH CARON", "D WITH STROKE", "E WITH MACRON",
      "E WITH BREVE", "E WITH DOT ABOVE", "E WITH OGONEK", "E WITH CARON", "G WITH CIRCUMFLEX",
      "G WITH BREVE", "G WITH DOT ABOVE", "G WITH CEDILLA", "H WITH CIRCUMFLEX", "H WITH STROKE",
      "I WITH TILDE", "I WITH MACRON", "I WITH BREVE", "I WITH OGONEK", "I WITH DOT ABOVE"]⟩,
    ⟨"LATIN SMALL LETTER ", 0x101, 2, [
      "A WITH MACRON", "A WITH BREVE", "A WITH OGONEK", "C WITH ACUTE", "C WITH CIRCUMFLEX",
      "C WITH DOT ABOVE", "C WITH CARON", "D WITH CARON", "D WITH STROKE", "E WITH MACRON",
      "E WITH BREVE", "E WITH DOT ABOVE", "E WITH OGONEK", "E WITH CARON", "G WITH CIRCUMFLEX",
      "G WITH BREVE", "G WITH DOT ABOVE", "G WITH CEDILLA", "H WITH CIRCUMFLEX", "H WITH STROKE",
      "I WITH TILDE", "I WITH MACRON", "I WITH BREVE", "I WITH OGONEK", "DOTLESS I"]⟩,
    ⟨"", 0x132, 1, [
      "LATIN CAPITAL LIGATURE IJ", "LATIN SMALL LIGATURE IJ"]⟩,
    ⟨"LATIN CAPITAL LETTER ", 0x134, 2, [
      "J WITH CIRCUMFLEX", "K WITH CEDILLA"]⟩,
    ⟨"LATIN SMALL LETTER ", 0x135, 2, [
      "J WITH CIRCUMFLEX", "K WITH CEDILLA"]⟩,
    ⟨"LATIN SMALL LETTER ", 0x138, 2, [
      "KRA", "L WITH ACUTE", "L WITH CEDILLA", "L WITH CARON", "L WITH MIDDLE DOT",
      "L WITH STROKE", "N WITH ACUTE", "N WITH CEDILLA", "N WITH CARON"]⟩,
    ⟨"LATIN CAPITAL LETTER ", 0x139, 2, [
      "L WITH ACUTE", "L WITH CEDILLA", "L WITH CARON", "L WITH MIDDLE DOT", "L WITH STROKE",
      "N WITH ACUTE", "N WITH CEDILLA", "N WITH CARON"]⟩,
    ⟨"LATIN SMALL LETTER ", 0x149, 2, [
      "N PRECEDED BY APOSTROPHE", "ENG", "O WITH MACRON", "O WITH BREVE", "O WITH DOUBLE ACUTE"]⟩,
    ⟨"LATIN CAPITAL LETTER ", 0x14a, 2, [
      "ENG", "O WITH MACRON", "O WITH BREVE", "O WITH DOUBLE ACUTE"]⟩,
    ⟨"", 0x152, 1, [
      "LATIN CAPITAL LIGATURE OE", "LATIN SMALL LIGATURE OE"]⟩,
    ⟨"LATIN CAPITAL LETTER ", 0x154, 2, [
      "R WITH ACUTE", "R WITH CEDILLA", "R WITH CARON", "S WITH ACUTE", "S WITH CIRCUMFLEX",
      "S WITH CEDILLA", "S WITH CARON", "T WITH CEDILLA", "T WITH CARON", "T WITH STROKE",
      "U WITH TILDE", "U WITH MACRON", "U WITH BREVE", "U WITH RING ABOVE",
      "U WITH DOUBLE ACUTE", "U WITH OGONEK", "W WITH CIRCUMFLEX", "Y WITH CIRCUMFLEX",
      "Y WITH DIAERESIS"]⟩,
    ⟨"LATIN SMALL LETTER ", 0x155, 2, [
      "R WITH ACUTE", "R WITH CEDILLA", "R WITH CARON", "S WITH ACUTE", "S WITH CIRCUMFLEX",
      "S WITH CEDILLA", "S WITH CARON", "T WITH CEDILLA", "T WITH CARON", "T WITH STROKE",
      "U WITH TILDE", "U WITH MACRON", "U WITH BREVE", "U WITH RING ABOVE",
      "U WITH DOUBLE ACUTE", "U WITH OGONEK", "W WITH CIRCUMFLEX", "Y WITH CIRCUMFLEX"]⟩,
    ⟨"LATIN CAPITAL LETTER ", 0x179, 2, [
      "Z WITH ACUTE", "Z WITH DOT ABOVE", "Z WITH CARON"]⟩,
    ⟨"LATIN SMALL LETTER ", 0x17a, 2, [
      "Z WITH ACUTE", "Z WITH DOT ABOVE", "Z WITH CARON"]⟩,
    ⟨"LATIN SMALL LETTER ", 0x17f, 1, [
      "LONG S"]⟩,
    ⟨"GREEK CAPITAL LETTER ", 0x386, 2, [
      "ALPHA WITH TONOS", "EPSILON WITH TONOS"]⟩,
    ⟨"", 0x387, 1, [
      "GREEK ANO TELEIA"]⟩,
    ⟨"GREEK CAPITAL LETTER ", 0x389, 1, [
      "ETA WITH TONOS", "IOTA WITH TONOS"]⟩,
    ⟨"GREEK CAPITAL LETTER ", 0x38c, 2, [
      "OMICRON WITH TONOS", "UPSILON WITH TONOS"]⟩,
    ⟨"GREEK CAPITAL LETTER ", 0x38f, 2, [
      "OMEGA WITH TONOS", "ALPHA"]⟩,
    ⟨"GREEK SMALL LETTER ", 0x390, 1, [
      "IOTA WITH DIALYTIKA AND TONOS"]⟩,
    ⟨"GREEK CAPITAL LETTER ", 0x392, 1, [
      "BETA", "GAMMA", "DELTA", "EPSILON", "ZETA", "ETA", "THETA", "IOTA", "KAPPA", "LAMDA",
      "MU", "NU", "XI", "OMICRON", "PI", "RHO"]⟩,
    ⟨"GREEK CAPITAL LETTER ", 0x3a3, 1, [
      "SIGMA", "TAU", "UPSILON", "PHI", "CHI", "PSI", "OMEGA", "IOTA WITH DIALYTIKA",
      "UPSILON WITH DIALYTIKA"]⟩,
    ⟨"GREEK SMALL LETTER ", 0x3ac, 1, [
      "ALPHA WITH TONOS", "EPSILON WITH TONOS", "ETA WITH TONOS", "IOTA WITH TONOS",
      "UPSILON WITH DIALYTIKA AND TONOS", "ALPHA", "BETA", "GAMMA", "DELTA", "EPSILON", "ZETA",
      "ETA", "THETA", "IOTA", "KAPPA", "LAMDA", "MU", "NU", "XI", "OMICRON", "PI", "RHO",
      "FINAL SIGMA", "SIGMA", "TAU", "UPSILON", "PHI", "CHI", "PSI", "OMEGA",
      "IOTA WITH DIALYTIKA", "UPSILON WITH DIALYTIKA", "OMICRON WITH TONOS",
      "UPSILON WITH TONOS", "OMEGA WITH TONOS"]⟩,
    ⟨"CYRILLIC CAPITAL LETTER ", 0x401, 1, [
      "IO", "DJE", "GJE", "UKRAINIAN IE", "DZE", "BYELORUSSIAN-UKRAINIAN I", "YI", "JE", "LJE",
      "NJE", "TSHE", "KJE", "I WITH GRAVE", "SHORT U", "DZHE", "A", "BE", "VE", "GHE", "DE",
      "IE", "ZHE", "ZE", "I", "SHORT I", "KA", "EL", "EM", "EN", "O", "PE", "ER", "ES", "TE",
      "U", "EF", "HA", "TSE", "CHE", "SHA", "SHCHA", "HARD SIGN", "YERU", "SOFT SIGN", "E", "YU",
      "YA"]⟩,
    ⟨"CYRILLIC SMALL LETTER ", 0x430, 1, [
      "A", "BE", "VE", "GHE", "DE", "IE", "ZHE", "ZE", "I", "SHORT I", "KA", "EL", "EM", "EN",
      "O", "PE", "ER", "ES", "TE", "U", "EF", "HA", "TSE", "CHE", "SHA", "SHCHA", "HARD SIGN",
      "YERU", "SOFT SIGN", "E", "YU", "YA", "IE WITH GRAVE", "IO", "DJE", "GJE", "UKRAINIAN IE",
      "DZE", "BYELORUSSIAN-UKRAINIAN I", "YI", "JE", "LJE", "NJE", "TSHE", "KJE", "I WITH GRAVE",
      "SHORT U", "DZHE"]⟩,
    ⟨"", 0x2010, 1, [
      "HYPHEN", "NON-BREAKING HYPHEN", "FIGURE DASH", "EN DASH", "EM DASH", "HORIZONTAL BAR",
      "DOUBLE VERTICAL LINE", "DOUBLE LOW LINE", "LEFT SINGLE QUOTATION MARK",
      "RIGHT SINGLE QUOTATION MARK", "SINGLE LOW-9 QUOTATION MARK",
      "SINGLE HIGH-REVERSED-9 QUOTATION MARK", "LEFT DOUBLE QUOTATION MARK",
      "RIGHT DOUBLE QUOTATION MARK", "DOUBLE LOW-9 QUOTATION MARK",
      "DOUBLE HIGH-REVERSED-9 QUOTATION MARK", "DAGGER", "DOUBLE DAGGER", "BULLET",
      "TRIANGULAR BULLET", "ONE DOT LEADER", "TWO DOT LEADER", "HORIZONTAL ELLIPSIS",
      "HYPHENATION POINT"]⟩,
    ⟨"", 0x2030, 1, [
      "PER MILLE SIGN", "PER TEN THOUSAND SIGN", "PRIME", "DOUBLE PRIME", "TRIPLE PRIME",
      "REVERSED PRIME", "REVERSED DOUBLE PRIME", "REVERSED TRIPLE PRIME", "CARET",
      "SINGLE LEFT-POINTING ANGLE QUOTATION MARK", "SINGLE RIGHT-POINTING ANGLE QUOTATION MARK",
      "REFERENCE MARK", "DOUBLE EXCLAMATION MARK", "INTERROBANG", "OVERLINE"]⟩,
    ⟨"", 0x20a0, 1, [
      "EURO-CURRENCY SIGN", "COLON SIGN", "CRUZEIRO SIGN", "FRENCH FRANC SIGN", "LIRA SIGN",
      "MILL SIGN", "NAIRA SIGN", "PESETA SIGN", "RUPEE SIGN", "WON SIGN", "NEW SHEQEL SIGN",
      "DONG SIGN", "EURO SIGN", "KIP SIGN", "TUGRIK SIGN", "DRACHMA SIGN", "GERMAN PENNY SIGN",
      "PESO SIGN", "GUARANI SIGN", "AUSTRAL SIGN", "HRYVNIA SIGN", "CEDI SIGN",
      "LIVRE TOURNOIS SIGN", "SPESMILO SIGN", "TENGE SIGN", "INDIAN RUPEE SIGN",
      "TURKISH LIRA SIGN", "NORDIC MARK SIGN", "MANAT SIGN", "RUBLE SIGN", "LARI SIGN",
      "BITCOIN SIGN"]⟩,
    ⟨"", 0x2190, 1, [
      "LEFTWARDS ARROW", "UPWARDS ARROW", "RIGHTWARDS ARROW", "DOWNWARDS ARROW",
      "LEFT RIGHT ARROW", "UP DOWN ARROW", "NORTH WEST ARROW", "NORTH EAST ARROW",
      "SOUTH EAST ARROW", "SOUTH WEST ARROW"]⟩,
    ⟨"", 0x21d0, 1, [
      "LEFTWARDS DOUBLE ARROW", "UPWARDS DOUBLE ARROW", "RIGHTWARDS DOUBLE ARROW",
      "DOWNWARDS DOUBLE ARROW", "LEFT RIGHT DOUBLE ARROW", "UP DOWN DOUBLE ARROW"]⟩,
    ⟨"", 0x2200, 1, [
      "FOR ALL", "COMPLEMENT", "PARTIAL DIFFERENTIAL", "THERE EXISTS", "THERE DOES NOT EXIST",
      "EMPTY SET", "INCREMENT", "NABLA", "ELEMENT OF", "NOT AN ELEMENT OF", "SMALL ELEMENT OF",
      "CONTAINS AS MEMBER", "DOES NOT CONTAIN AS MEMBER", "SMALL CONTAINS AS MEMBER",
      "END OF PROOF", "N-ARY PRODUCT", "N-ARY COPRODUCT", "N-ARY SUMMATION", "MINUS SIGN",
      "MINUS-OR-PLUS SIGN", "DOT PLUS", "DIVISION SLASH", "SET MINUS", "ASTERISK OPERATOR",
      "RING OPERATOR", "BULLET OPERATOR", "SQUARE ROOT", "CUBE ROOT", "FOURTH ROOT",
      "PROPORTIONAL TO", "INFINITY"]⟩,
    ⟨"", 0x2260, 1, [
      "NOT EQUAL TO", "IDENTICAL TO", "NOT IDENTICAL TO", "STRICTLY EQUIVALENT TO",
      "LESS-THAN OR EQUAL TO", "GREATER-THAN OR EQUAL TO"]⟩]

def inRows? (name : Text) : Option Nat :=
  rows.findSome? fun r => do
    let rest ← dropLead? r.lead name
    let place ← r.names.findIdx? (·.toList = rest)
    return r.first + place * r.step

def capital (c : Char) : Char := if 'a' ≤ c && c ≤ 'z' then Char.ofNat (c.toNat - 32) else c

def hexDigit? (c : Char) : Option Nat :=
  if '0' ≤ c && c ≤ '9' then some (c.toNat - 48)
  else if 'A' ≤ c && c ≤ 'F' then some (c.toNat - 55)
  else none

def hexNumber? (digits : Text) : Option Nat :=
  digits.foldlM (fun n c => (hexDigit? c).map (n * 16 + ·)) 0

def numbered : List (String × Nat × Nat) :=
  [("CJK COMPATIBILITY IDEOGRAPH-", 0xf900, 0xfa6d),
    ("CJK COMPATIBILITY IDEOGRAPH-", 0xfa70, 0xfad9),
    ("KHITAN SMALL SCRIPT CHARACTER-", 0x18b00, 0x18cd5),
    ("NUSHU CHARACTER-", 0x1b170, 0x1b2fb),
    ("CJK COMPATIBILITY IDEOGRAPH-", 0x2f800, 0x2fa1d)]

def inNumbered? (name : Text) : Option Nat :=
  numbered.findSome? fun (lead, first, last) => do
    let digits ← after? lead.toList name
    let n ← hexNumber? digits
    if digits.head? != some '0' && first ≤ n && n ≤ last then some n else none

def unifiedLead : Text := "CJK UNIFIED IDEOGRAPH-".toList

def unifiedRanges : List (Nat × Nat) :=
  [(0x3400, 0x4dbf), (0x4e00, 0x9fff), (0x20000, 0x2a6df), (0x2a700, 0x2b738),
    (0x2b740, 0x2b81d), (0x2b820, 0x2cea1), (0x2ceb0, 0x2ebe0), (0x30000, 0x3134a)]

def unified? (digits : Text) : Option Nat := do
  let n ← if digits.length = 4 || digits.length = 5 then hexNumber? digits else none
  if unifiedRanges.any fun (first, last) => first ≤ n && n ≤ last then some n else none

def syllableLead : Text := "HANGUL SYLLABLE ".toList

def initials : List String :=
  ["G", "GG", "N", "D", "DD", "R", "M", "B", "BB", "S", "SS", "", "J", "JJ", "C", "K", "T", "P", "H"]

def medials : List String :=
  ["A", "AE", "YA", "YAE", "EO", "E", "YEO", "YE", "O", "WA", "WAE", "OE", "YO", "U", "WEO", "WE",
    "WI", "YU", "EU", "YI", "I"]

def finals : List String :=
  ["", "G", "GG", "GS", "N", "NJ", "NH", "D", "L", "LG", "LM", "LB", "LS", "LT", "LP", "LH", "M",
    "B", "BS", "S", "SS", "NG", "J", "C", "K", "T", "P", "H"]

def longestLetter? (letters : List String) (t : Text) : Option (Nat × Text) :=
  (letters.zipIdx.filterMap fun (letter, i) => (after? letter.toList t).map fun rest => (i, rest)).foldl
    (fun best (i, rest) => match best with
      | some (_, other) => if rest.length < other.length then some (i, rest) else best
      | none => some (i, rest)) none

def syllable? (letters : Text) : Option Nat := do
  let (l, rest) ← longestLetter? initials letters
  let (v, rest) ← longestLetter? medials rest
  let (t, rest) ← longestLetter? finals rest
  if rest.isEmpty then some (0xac00 + (l * medials.length + v) * finals.length + t) else none

structure Series where
  lead : String
  width : Nat
  first : Nat
  last : Nat
  code : Nat

def series : List Series :=
  [⟨"TANGUT COMPONENT-", 3, 1, 768, 0x18800⟩,
    ⟨"VARIATION SELECTOR-", 1, 1, 16, 0xfe00⟩, ⟨"VARIATION SELECTOR-", 1, 17, 256, 0xe0100⟩,
    ⟨"VS", 1, 1, 16, 0xfe00⟩, ⟨"VS", 1, 17, 256, 0xe0100⟩]

def inSeries? (name : Text) : Option Nat :=
  series.findSome? fun s => do
    let digits ← dropLead? s.lead name
    let place ← (List.range (s.last + 1 - s.first)).find? fun i =>
      padLeft s.width '0' (ofNat (s.first + i)) = digits
    some (s.code + place)

def lookup? (name : Text) : Option Nat :=
  match after? syllableLead name, after? unifiedLead name with
  | some letters, _ => syllable? letters
  | _, some digits => unified? digits
  | none, none =>
    let name := name.map capital
    inSeries? name <|> inNumbered? name <|> inRows? name

end ModuleSplit.Text.CharName
