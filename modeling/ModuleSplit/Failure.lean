import ModuleSplit.Path
import ModuleSplit.Text.Encoding

namespace ModuleSplit

namespace Pattern

-- Why a text is refused as a regular expression.
inductive Refusal where
  -- no expression
  | malformed
  -- a repetition count is beyond every limit
  | countTooLarge
  -- a repetition count is too long to be read
  | countTooLong (digits : Nat)
  -- the classes are to be those of ASCII and those of every script at once
  | charsetClash
  deriving DecidableEq, Repr

end Pattern

namespace Calendar

-- What keeps numbers from being a date, a time of day or a distance from universal time.
inductive Problem where
  | year (given : Nat)
  | month
  | day
  | hour
  | minute
  | second
  -- a day or more ahead of universal time, or behind it
  | offset (minutes : Int)
  deriving DecidableEq, Repr

def spanText (minutes : Int) : Text :=
  let days := minutes.fdiv 1440
  let seconds := minutes.fmod 1440 * 60
  let part (name : String) (n : Int) : List Text :=
    if n = 0 then [] else [(name ++ "=").toList ++ Text.ofInt n]
  let parts := part "days" days ++ part "seconds" seconds
  "datetime.timedelta(".toList ++ (if parts.isEmpty then ['0'] else Text.joinWith ", " parts) ++ [')']

def Problem.message : Problem → Text
  | .year given => "year ".toList ++ Text.ofNat given ++ " is out of range".toList
  | .month => "month must be in 1..12".toList
  | .day => "day is out of range for month".toList
  | .hour => "hour must be in 0..23".toList
  | .minute => "minute must be in 0..59".toList
  | .second => "second must be in 0..59".toList
  | .offset minutes =>
    "offset must be a timedelta strictly between -timedelta(hours=24) and timedelta(hours=24), not ".toList
      ++ spanText minutes ++ ['.']

end Calendar

inductive OsCause where
  | notFound
  | exists
  | notDirectory
  | isDirectory
  | nameTooLong
  | notEmpty
  deriving DecidableEq, Repr

inductive OsError where
  | at (cause : OsCause) (path : Text)
  | reported (words : Text)
  deriving DecidableEq, Repr

def OsError.message : OsError → Text
  | .at .notFound path => "[Errno 2] No such file or directory: ".toList ++ Text.quoted path
  | .at .exists path => "[Errno 17] File exists: ".toList ++ Text.quoted path
  | .at .notDirectory path => "[Errno 20] Not a directory: ".toList ++ Text.quoted path
  | .at .isDirectory path => "[Errno 21] Is a directory: ".toList ++ Text.quoted path
  | .at .nameTooLong path => "[Errno 36] File name too long: ".toList ++ Text.quoted path
  | .at .notEmpty path => "[Errno 39] Directory not empty: ".toList ++ Text.quoted path
  | .reported words => words

inductive ConfigProblem where
  | notFound (path : Text)
  | badFormat
  | unreadable (error : OsError)
  | notMapping (path : Text)
  | unsaved (error : OsError)
  | maxLines
  | outputMode
  | delimiterMode
  | backupDirectory
  | notList (key : String)
  | badExtension (shown : Text)
  | notTextList (key : Text)
  deriving DecidableEq, Repr

def ConfigProblem.message : ConfigProblem → Text
  | .notFound path => "Configuration file not found: ".toList ++ path
  | .badFormat => "Invalid configuration file format".toList
  | .unreadable error => "Error reading configuration file: ".toList ++ error.message
  | .notMapping path => "Configuration file must contain a mapping: ".toList ++ path
  | .unsaved error => "Error saving configuration file: ".toList ++ error.message
  | .maxLines => "max_lines must be a positive integer".toList
  | .outputMode => "output_mode must be one of: ['sibling', 'directory']".toList
  | .delimiterMode => "delimiter_mode must be one of: ['raw', 'literal_aware']".toList
  | .backupDirectory => "backup_directory must not be empty".toList
  | .notList key => key.toList ++ " must be a list".toList
  | .badExtension shown => "file extension must start with '.': ".toList ++ shown
  | .notTextList key =>
    "classification.".toList ++ key ++ " must be a list of strings".toList

inductive Failure where
  -- a value has the wrong shape for what is done with it
  | wrongType
  -- a value lacks the part that is asked for
  | missingMember
  -- a document does not keep to its format
  | malformed
  -- a value that holds itself has no last level
  | tooDeep
  | pattern (refusal : Pattern.Refusal)
  -- a match has left a group that ends before it begins
  | crossedGroup
  -- an integer has more digits than are read
  | tooManyDigits (count : Nat)
  -- an integer has more digits than are written
  | integerTooLong
  | notInteger (base : Nat) (given : Text)
  | notDecimal (given : Text)
  -- a number was asked for and nothing is there
  | noNumber
  -- a word is neither of the words for true and false
  | notTruthWord
  | numberTooLarge
  | noSuchCharacter
  | noSuchDate (problem : Calendar.Problem)
  | badChoice (given : Text) (kind : String)
  | config (problem : ConfigProblem)
  | os (error : OsError)
  -- a path holds the character that would end it
  | nullInPath
  | decode (failure : DecodeFailure)
  | encode (failure : EncodeFailure)
  | unknownEncoding (name : Text)
  | dateOutOfRange
  -- an entry of a list of pairs is no pair
  | notPair (index length : Nat)
  -- the file could not be backed up; nothing was changed
  | backup (path : Path) (reason : Text)
  | write (path : Path) (reason : Text)
  | verification (path : Path) (reason : Text)
  -- a failed transaction could not be undone
  | rollback (path : Path) (backup : Option Path) (reason : Text) (cause : Option Text)
  | interrupted
  deriving DecidableEq, Repr

def digitsMessage (found : Text) : Text :=
  "Exceeds the limit (4300 digits) for integer string conversion".toList ++ found ++
    "; use sys.set_int_max_str_digits() to increase the limit".toList

def Failure.message : Failure → Text
  | .wrongType | .missingMember | .malformed | .pattern .malformed | .notTruthWord | .interrupted => []
  | .pattern .countTooLarge => "the repetition number is too large".toList
  | .pattern (.countTooLong count) | .tooManyDigits count =>
    digitsMessage (": value has ".toList ++ Text.ofNat count ++ " digits".toList)
  | .integerTooLong => digitsMessage []
  | .pattern .charsetClash => "ASCII and UNICODE flags are incompatible".toList
  | .tooDeep => "maximum recursion depth exceeded".toList
  | .notInteger base given =>
    "invalid literal for int() with base ".toList ++ Text.ofNat base ++ ": ".toList ++
      (Text.quoted given).take 200
  | .notDecimal given => "could not convert string to float: ".toList ++ Text.quoted given
  | .noNumber => "string index out of range".toList
  | .numberTooLarge => "the number is too large".toList
  | .noSuchCharacter => "chr() arg not in range(0x110000)".toList
  | .noSuchDate problem => problem.message
  | .crossedGroup =>
    "The span of capturing group is wrong, please report a bug for the re module.".toList
  | .badChoice given kind => Text.quoted given ++ (" is not a valid " ++ kind).toList
  | .config problem => problem.message
  | .os error => error.message
  | .nullInPath => "embedded null byte".toList
  | .decode failure => failure.message.toList
  | .encode failure => failure.message.toList
  | .unknownEncoding name => "unknown encoding: ".toList ++ name
  | .dateOutOfRange => "date value out of range".toList
  | .notPair index length =>
    "dictionary update sequence element #".toList ++ Text.ofNat index ++ " has length ".toList ++
      Text.ofNat length ++ "; 2 is required".toList
  | .backup path reason => "Failed to back up ".toList ++ path.text ++ ": ".toList ++ reason
  | .write path reason => "Failed to write ".toList ++ path.text ++ ": ".toList ++ reason
  | .verification path reason =>
    "Verification failed for ".toList ++ path.text ++ ": ".toList ++ reason
  | .rollback path kept reason cause =>
    "Rollback failed for ".toList ++ path.text ++ ": ".toList ++ reason ++
      (match kept with
        | some b => " (backup kept at ".toList ++ b.text ++ [')']
        | none => []) ++
      (match cause with
        | some c => if c.isEmpty then [] else "; rollback was triggered by: ".toList ++ c
        | none => [])

abbrev Result := Except Failure

end ModuleSplit
