/-! Readers: steps through the characters of a document.

A reader takes characters from the front and gives what they stand for, or refuses.
Blanks are spaces and tabs, a line ends in a line feed with or without a carriage
return before it, and no other control character stands outside escapes. -/
namespace MixedModules.Toml

/-- A reader of `α`. -/
abbrev Reader := StateT (List Char) Option

namespace Reader

variable {α : Type}

/-- The next character, left in place. -/
def peek : Reader (Option Char) := do return (← get).head?

/-- The next character. -/
def next : Reader Char := do
  match ← get with
  | [] => failure
  | c :: rest =>
    set rest
    return c

/-- A text that must come next. -/
def exactly (expected : List Char) : Reader Unit := do
  let cs ← get
  if expected.isPrefixOf cs then set (cs.drop expected.length) else failure

def one (c : Char) : Reader Unit := exactly [c]

/-- All characters of a class that come next. -/
def allOf (isIn : Char → Bool) : Reader (List Char) := do
  let cs ← get
  set (cs.dropWhile isIn)
  return cs.takeWhile isIn

/-- Reads if it can, and otherwise takes nothing. -/
def optional (r : Reader α) : Reader (Option α) := fun cs =>
  match r cs with
  | some (a, rest) => some (some a, rest)
  | none => some (none, cs)

/-- Reads as often as it can, at most `bound` times. -/
def repeated (r : Reader α) : Nat → Reader (List α)
  | 0 => return []
  | bound + 1 => do
    match ← optional r with
    | none => return []
    | some a => return a :: (← repeated r bound)

/-- Reads as often as it can, where every reading takes a character. -/
def many (r : Reader α) : Reader (List α) := do repeated r (← get).length

/-- Items with a separator between them. A separator that no item follows is left
in place. -/
def separated (item : Reader α) (separator : Char) : Reader (List α) := do
  match ← optional item with
  | none => return []
  | some first => return first :: (← many (do one separator; item))

/-- Nothing more may come. -/
def finish : Reader Unit := do
  unless (← get).isEmpty do failure

end Reader

/-! ## Blanks, comments and ends of lines -/

def isBlank (c : Char) : Bool := c = ' ' || c = '\t'

/-- Characters that may stand in comments and texts: all but control characters. -/
def isPrintable (c : Char) : Bool := c = '\t' || (' ' ≤ c && c ≠ '\x7f')

namespace Reader

def blanks : Reader Unit := do
  let _ ← allOf isBlank

/-- The end of a line. -/
def newline : Reader Unit := do
  match ← next with
  | '\n' => pure ()
  | '\r' => one '\n'
  | _ => failure

def comment : Reader Unit := do
  one '#'
  let _ ← allOf isPrintable

/-- The end of a line or of the document. -/
def lineEnd : Reader Unit := newline <|> finish

/-- What may follow the last thing on a line. -/
def lineRest : Reader Unit := do
  blanks
  let _ ← optional comment
  lineEnd

/-- Blanks, comments and ends of lines in any number. -/
def spacing : Reader Unit := do
  let blank : Reader Unit := do
    if isBlank (← next) then pure () else failure
  let _ ← many (blank <|> newline <|> comment)

end Reader
end MixedModules.Toml
