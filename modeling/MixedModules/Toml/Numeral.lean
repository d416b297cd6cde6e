import MixedModules.Number.Decimal
import MixedModules.Toml.Node
import MixedModules.Toml.Reader

/-! Numbers and moments in documents.

Digits may have single underscores between them. An integer fits 64 bits, and a
float may not be so great that it would be infinite without saying so. A moment is a
date, a time of day, or both with or without an offset; only its form and the ranges
of its parts matter here. -/
namespace MixedModules.Toml.Reader

/-- More digits, each perhaps after an underscore. -/
def moreDigits (isDigit : Char → Bool) : List Char → List Char × List Char
  | [] => ([], [])
  | '_' :: c :: rest =>
    if isDigit c then
      let (digits, rest) := moreDigits isDigit rest
      (c :: digits, rest)
    else ([], '_' :: c :: rest)
  | c :: rest =>
    if isDigit c then
      let (digits, rest) := moreDigits isDigit rest
      (c :: digits, rest)
    else ([], c :: rest)

/-- A row of digits with at least one. -/
def digits (isDigit : Char → Bool) : Reader (List Char) := do
  let first ← next
  if isDigit first then
    let (more, rest) := moreDigits isDigit (← get)
    set rest
    return first :: more
  else failure

/-- An optional sign, kept. -/
def sign : Reader (List Char) := fun cs =>
  match cs with
  | '+' :: rest => some (['+'], rest)
  | '-' :: rest => some (['-'], rest)
  | cs => some ([], cs)

/-- A decimal integer, without leading zeros. -/
def decimalDigits : Reader (List Char) := do
  let signed ← sign
  match ← peek with
  | some '0' =>
    let zero ← next
    return signed ++ [zero]
  | _ => return signed ++ (← digits Char.isDigit)

/-- Integers of 64 bits are below this, and not below its opposite. -/
def integerBound : Int := Int.ofNat (Nat.pow 2 63)

/-- An integer that fits 64 bits. -/
def bounded (n : Int) : Reader Node :=
  if -integerBound ≤ n ∧ n < integerBound then return .integer n else failure

/-- The value of digits in a base up to sixteen. -/
def valueIn (base : Nat) (ds : List Char) : Nat :=
  ds.foldl (fun n c =>
    base * n + (if c.isDigit then c.toNat - '0'.toNat else c.toLower.toNat - 'a'.toNat + 10)) 0

def isHexDigit (c : Char) : Bool :=
  c.isDigit || ('a' ≤ c && c ≤ 'f') || ('A' ≤ c && c ≤ 'F')

/-- An integer with a mark of its base in front. -/
def basedInteger (mark : Char) (base : Nat) (isDigit : Char → Bool) : Reader Node := do
  exactly ['0', mark]
  bounded (valueIn base (← digits isDigit))

def decimalInteger : Reader Node := do
  let (negative, ds) := Number.takeSign (← decimalDigits)
  let n : Int := Number.digitsValue ds
  bounded (if negative then -n else n)

def integer : Reader Node :=
  basedInteger 'x' 16 isHexDigit <|>
  basedInteger 'o' 8 (fun c => '0' ≤ c && c ≤ '7') <|>
  basedInteger 'b' 2 (fun c => c = '0' || c = '1') <|>
  decimalInteger

/-- The part of a float after the point. -/
def fraction : Reader (List Char) := do
  one '.'
  return '.' :: (← digits Char.isDigit)

/-- The power of ten of a float. -/
def power : Reader (List Char) := do
  one 'e' <|> one 'E'
  let signed ← sign
  return 'e' :: signed ++ (← digits Char.isDigit)

/-- A float in digits. It must have a fraction or a power of ten. -/
def decimalFloat : Reader Node := do
  let whole ← decimalDigits
  let rest ← power <|> (do
    let part ← fraction
    return part ++ ((← optional power).getD []))
  match Number.Numeral.read (whole ++ rest) with
  | some numeral =>
    let x := numeral.toDouble
    if x = .infinity false then failure else return .float x
  | none => failure

/-- Infinity or no number, with an optional sign. -/
def specialFloat : Reader Node := do
  let signed ← sign
  (do
    exactly ['i', 'n', 'f']
    return .float (.infinity (signed == ['-']))) <|>
  (do
    exactly ['n', 'a', 'n']
    return .float .nan)

def float : Reader Node := decimalFloat <|> specialFloat

/-! ## Moments -/

/-- A number of exactly `count` digits. -/
def fixedDigits (count : Nat) : Reader Nat := do
  let cs := (← get).take count
  if cs.length = count ∧ cs.all Char.isDigit then
    exactly cs
    return Number.digitsValue cs
  else failure

/-- A number of two digits within bounds. -/
def within (low high : Nat) : Reader Nat := do
  let n ← fixedDigits 2
  if low ≤ n ∧ n ≤ high then return n else failure

/-- How many days a month has. -/
def daysIn (year month : Nat) : Nat :=
  if month = 2 then
    if year % 4 = 0 ∧ (year % 100 ≠ 0 ∨ year % 400 = 0) then 29 else 28
  else if month ∈ [4, 6, 9, 11] then 30 else 31

def date : Reader Unit := do
  let year ← fixedDigits 4
  one '-'
  let month ← within 1 12
  one '-'
  let _ ← within 1 (daysIn year month)

def timeOfDay : Reader Unit := do
  let _ ← within 0 23
  one ':'
  let _ ← within 0 59
  one ':'
  let _ ← within 0 60
  let _ ← optional (do
    one '.'
    let fractional ← allOf Char.isDigit
    if fractional.isEmpty then failure)

def offset : Reader Unit :=
  one 'Z' <|> one 'z' <|> (do
    one '+' <|> one '-'
    let _ ← within 0 23
    one ':'
    let _ ← within 0 59)

/-- A date with an optional time of day, or a time of day alone. -/
def moment : Reader Node := do
  (do
    date
    let _ ← optional (do
      one 'T' <|> one 't' <|> one ' '
      timeOfDay
      let _ ← optional offset)) <|> timeOfDay
  return .moment

end MixedModules.Toml.Reader
