import MixedModules.Text.Hidden

/-! Quoted text, as values are shown to a person.

Quotes and backslashes get a backslash, the common controls their letter, and
every hidden character its code point in hexadecimal between braces. All else
stands for itself, so one quoted text has one meaning. -/
namespace MixedModules.Text

/-- The code point of a character as an escape. -/
def codePointEscape (c : Char) : List Char :=
  ['\\', 'u', '\x7b'] ++ Nat.toDigits 16 c.toNat ++ ['\x7d']

/-- One character of a quoted text. -/
def escaped (c : Char) : List Char :=
  match c with
  | '\x00' => ['\\', '0']
  | '\t' => ['\\', 't']
  | '\r' => ['\\', 'r']
  | '\n' => ['\\', 'n']
  | '\\' => ['\\', '\\']
  | '"' => ['\\', '"']
  | c => if isHidden c then codePointEscape c else [c]

/-- The text between double quotes, with its characters escaped. -/
def quoted (text : String) : String :=
  String.ofList ('"' :: text.toList.flatMap escaped ++ ['"'])

end MixedModules.Text
