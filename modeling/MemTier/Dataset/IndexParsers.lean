import MemTier.Trace.Criteo
import MemTier.Containers.Words

/-!
# Index files of samples

An index file names the samples of a data set, one a line. It is parsed twice: in C++, where each
line is a stream from which fields are extracted, and in Python, where each line is split into four
or five fields. A text is a list of characters; one that is no UTF-8 is refused by Python before
any line is read.
-/

namespace MemTier.Dataset

open Containers.Words Trace

/-- Parse the lines of a file in order, numbered as they come. A line may hold no sample; the first
error ends the reading. -/
def readLines {ε σ : Type} (parse : Nat → List Char → Except ε (Option σ)) :
    Nat → List (List Char) → Except ε (List σ)
  | _, [] => .ok []
  | lineno, line :: lines => do
      let sample ← parse lineno line
      let samples ← readLines parse (lineno + 1) lines
      return sample.toList ++ samples

/-- The sign in front of a numeral, and what follows it. -/
def takeSign : List Char → Bool × List Char
  | [] => (false, [])
  | char :: rest =>
      if char = '-' then (true, rest) else if char = '+' then (false, rest)
      else (false, char :: rest)

/-- The value of ASCII digits. -/
def digitsValue (digits : List Char) : Nat := Nat.ofDigitChars 10 digits 0

def signed (negative : Bool) (magnitude : Nat) : Int :=
  if negative then -magnitude else magnitude

/-! ## Extraction from a stream -/

/-- `isspace` of a character in the classic locale. -/
def isBlank (char : Char) : Bool := (9 ≤ char.toNat ∧ char.toNat ≤ 13) || char.toNat = 32

/-- The numeral a stream starts with after blanks, and the rest of the stream. -/
structure Scan where
  negative : Bool
  digits : List Char
  rest : List Char

def scanNumeral (stream : List Char) : Scan :=
  let sign := takeSign (stream.dropWhile isBlank)
  { negative := sign.1
    digits := sign.2.takeWhile Char.isDigit
    rest := sign.2.dropWhile Char.isDigit }

/-- `stream >> value` for a number of 64 bits without sign; a minus sign negates modulo 2^64. -/
def extractUInt64 (stream : List Char) : Option (UInt64 × List Char) :=
  let scan := scanNumeral stream
  if scan.digits = [] ∨ 2 ^ 64 ≤ digitsValue scan.digits then none
  else
    let magnitude := UInt64.ofNat (digitsValue scan.digits)
    some (if scan.negative then -magnitude else magnitude, scan.rest)

/-- `stream >> text`. -/
def extractString (stream : List Char) : Option (String × List Char) :=
  let text := stream.dropWhile isBlank
  if text = [] then none
  else some (String.ofList (text.takeWhile (! isBlank ·)), text.dropWhile (! isBlank ·))

/-- `stream >> value` for an `int` whose failure nobody looks at: the value stays at the end of the
stream, becomes zero where no digit follows and the nearest `int` where the number is none. -/
def extractInt (stream : List Char) (value : Int) : Int :=
  if stream.dropWhile isBlank = [] then value
  else
    let scan := scanNumeral stream
    max (-2 ^ 31) (min (signed scan.negative (digitsValue scan.digits)) (2 ^ 31 - 1))

/-! ## The C++ parser -/

structure SampleRef where
  sampleId : UInt64
  path : String
  offset : UInt64
  size : UInt64
  label : Int
  deriving DecidableEq, Repr

def extractSampleRef (line : List Char) : Option SampleRef := do
  let (sampleId, stream) ← extractUInt64 line
  let (path, stream) ← extractString stream
  let (offset, stream) ← extractUInt64 stream
  let (size, stream) ← extractUInt64 stream
  return { sampleId, path, offset, size, label := extractInt stream (-1) }

/-- The body of the loop over `std::getline`. -/
def parseSampleRef (lineno : Nat) (line : List Char) : Except String (Option SampleRef) :=
  if line = [] then .ok none
  else
    match extractSampleRef line with
    | none => .error s!"invalid index line {lineno}"
    | some sample => .ok (some sample)

/-- The constructor of `MemTierDataset`, for a file that opens and a context. What follows the last
newline is a line if it is not empty. -/
def memTierDataset (text : List Char) : Except String (List SampleRef) :=
  readLines parseSampleRef 1 (text.splitOn '\n')

/-! ## The Python parser -/

/-- What `int` of a text depends on. -/
structure Interpreter where
  /-- `unicodedata.decimal` of a character, `none` when it is no digit. -/
  decimal : Char → Option Nat
  decimal_ascii : ∀ char : Char, char.toNat < 128 →
    decimal char = if char.isDigit then some (char.toNat - '0'.toNat) else none
  /-- `sys.get_int_max_str_digits()`; zero is no limit. -/
  maxStrDigits : Nat

/-- Decimal digits, in which single underscores may stand between digits. -/
def decimalDigits (interpreter : Interpreter) (text : List Char) : Option (List Nat) :=
  let groups := text.splitOn '_'
  if [] ∈ groups then none else groups.flatten.mapM interpreter.decimal

/-- `int(text)`. -/
def int (interpreter : Interpreter) (text : List Char) : Except PyError Int :=
  let sign := takeSign (strip text)
  match decimalDigits interpreter sign.2 with
  | none => .error (.valueError "invalid literal for int()")
  | some digits =>
      if interpreter.maxStrDigits ≠ 0 ∧ interpreter.maxStrDigits < digits.length then
        .error (.valueError "Exceeds the limit for integer string conversion")
      else .ok (signed sign.1 (digits.foldl (fun value digit => 10 * value + digit) 0))

structure Sample where
  sid : Int
  path : String
  off : Int
  size : Int
  label : Int
  deriving DecidableEq, Repr

/-- The fields of a line that is not blank: id, path, offset, size and label. -/
def indexFields (dataFile : Option String) (lineno : Nat) (line : List Char) :
    Except PyError (List Char × String × List Char × List Char × List Char) :=
  match splitSpaces line with
  | [sid, path, off, size, label] => .ok (sid, String.ofList path, off, size, label)
  | [sid, off, size, label] =>
      match dataFile with
      | none => .error (.valueError s!"line {lineno}: format-B requires data_file")
      | some dataFile =>
          if dataFile = "" then .error (.valueError s!"line {lineno}: format-B requires data_file")
          else .ok (sid, dataFile, off, size, label)
  | _ => .error (.valueError s!"line {lineno}: invalid format")

def parseIndexLine (interpreter : Interpreter) (dataFile : Option String) (lineno : Nat)
    (line : List Char) : Except PyError (Option Sample) :=
  if strip line = [] then .ok none
  else do
    let (sid, path, off, size, label) ← indexFields dataFile lineno (strip line)
    let off ← int interpreter off
    let size ← int interpreter size
    if off < 0 ∨ size ≤ 0 then .error (.valueError s!"line {lineno}: invalid offset/size")
    else return some { sid := ← int interpreter sid, path, off, size, label := ← int interpreter label }

/-- Text files end their lines with a newline, a carriage return, or both. -/
def universalNewlines : List Char → List Char
  | '\r' :: '\n' :: rest => '\n' :: universalNewlines rest
  | '\r' :: rest => '\n' :: universalNewlines rest
  | char :: rest => char :: universalNewlines rest
  | [] => []

/-- `MemTierDataset._parse_index`, for a file that opens. -/
def parseIndex (interpreter : Interpreter) (dataFile : Option String) (text : List Char) :
    Except PyError (List Sample) :=
  readLines (parseIndexLine interpreter dataFile) 1 ((universalNewlines text).splitOn '\n')

end MemTier.Dataset
