import MixedModules.Toml.Reader

/-! Texts and keys.

A text between quotation marks has escapes, and one between apostrophes has none.
Three marks open a text of several lines, which may hold one or two marks in a row
and may also end in them; a line end right after the opening is left out. -/
namespace MixedModules.Toml.Reader

def quotation : Char := '\"'

def apostrophe : Char := '\''

def triple (mark : Char) : List Char := [mark, mark, mark]

def hexDigit? (c : Char) : Option Nat :=
  if '0' ≤ c ∧ c ≤ '9' then some (c.toNat - '0'.toNat)
  else if 'a' ≤ c ∧ c ≤ 'f' then some (c.toNat - 'a'.toNat + 10)
  else if 'A' ≤ c ∧ c ≤ 'F' then some (c.toNat - 'A'.toNat + 10)
  else none

/-- A character given by exactly `count` hexadecimal digits after what is read. -/
def codePoint : Nat → Nat → Reader Char
  | 0, n => if n.isValidChar then return Char.ofNat n else failure
  | count + 1, n => do
    match hexDigit? (← next) with
    | some digit => codePoint count (16 * n + digit)
    | none => failure

/-- An escape, from its backslash on. -/
def escaped : Reader Char := do
  one '\\'
  match ← next with
  | 'b' => return '\x08'
  | 't' => return '\t'
  | 'n' => return '\n'
  | 'f' => return '\x0c'
  | 'r' => return '\r'
  | '\"' => return '\"'
  | '\\' => return '\\'
  | 'u' => codePoint 4 0
  | 'U' => codePoint 8 0
  | _ => failure

/-- A character that stands for itself in a text that ends at `mark`. -/
def plainChar (mark : Char) : Reader Char := do
  let c ← next
  if isPrintable c ∧ c ≠ mark ∧ ¬(mark = quotation ∧ c = '\\') then return c else failure

/-- The characters of a text on one line. -/
def lineText (mark : Char) (content : Reader Char) : Reader (List Char) := do
  one mark
  let cs ← many content
  one mark
  return cs

/-- A backslash at the end of a line, with all blanks and line ends after it. -/
def lineContinuation : Reader Unit := do
  one '\\'
  blanks
  newline
  let blank : Reader Unit := do
    if isBlank (← next) then pure () else failure
  let _ ← many (blank <|> newline)

/-- A piece of a text of several lines that holds no mark. -/
def piece (mark : Char) : Reader (List Char) :=
  (do return [← plainChar mark]) <|>
  (do newline; return ['\n']) <|>
  (if mark = quotation then
    (do lineContinuation; return []) <|> (do return [← escaped])
  else failure)

/-- One or two marks that do not begin a row of three. -/
def innerMarks (mark : Char) : Reader (List Char) := fun cs =>
  let marks := cs.takeWhile (· = mark)
  if marks.length = 1 ∨ marks.length = 2 then some (marks, cs.drop marks.length) else none

/-- The marks that end a text of several lines: three, and up to two of its own
before them. -/
def closingMarks (mark : Char) : Reader (List Char) := fun cs =>
  let count := min 5 (cs.takeWhile (· = mark)).length
  if 3 ≤ count then some (List.replicate (count - 3) mark, cs.drop count) else none

/-- A text of several lines. -/
def block (mark : Char) : Reader (List Char) := do
  exactly (triple mark)
  let _ ← optional newline
  let pieces ← many (piece mark <|> innerMarks mark)
  return pieces.flatten ++ (← closingMarks mark)

/-- The characters of a text on one line, with escapes or without. -/
def basicLine : Reader (List Char) := lineText quotation (plainChar quotation <|> escaped)

def literalLine : Reader (List Char) := lineText apostrophe (plainChar apostrophe)

/-- Any text. -/
def text : Reader String := do
  let cs ← block quotation <|> basicLine <|> block apostrophe <|> literalLine
  return String.ofList cs

/-! ## Keys -/

def isKeyChar (c : Char) : Bool := c.isAlphanum || c = '-' || c = '_'

/-- A part of a key: a bare word or a text on one line. -/
def keyPart : Reader String := do
  blanks
  let cs ← match ← peek with
    | some '\"' => basicLine
    | some '\'' => literalLine
    | _ => allOf isKeyChar >>= fun cs => if cs.isEmpty then failure else pure cs
  blanks
  return String.ofList cs

/-- No document nests deeper than this, in its keys and in its values. -/
def nestingBound : Nat := 80

/-- A key of one or several parts with points between them: the path, and the last
part. -/
def key : Reader (List String × String) := do
  let parts ← separated keyPart '.'
  if nestingBound ≤ parts.length then failure
  match parts.getLast? with
  | some last => return (parts.dropLast, last)
  | none => failure

end MixedModules.Toml.Reader
