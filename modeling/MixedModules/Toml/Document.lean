import MixedModules.Toml.Numeral
import MixedModules.Toml.Text

/-! Reading documents.

A document is a row of lines: blank ones, comments, headers and definitions. A
header opens the table to which the definitions after it belong. Values may nest,
and arrays may go over several lines. -/
namespace MixedModules.Toml

namespace Reader

/-- Values between brackets, with any spacing around them and perhaps a comma after
the last one. -/
def array (item : Reader Node) : Reader Node := do
  one '['
  let spaced : Reader Node := do
    spacing
    let node ← item
    spacing
    return node
  let items ← separated spaced ','
  unless items.isEmpty do
    let _ ← optional (one ',')
  spacing
  one ']'
  return .array items

/-- A key and a value with a mark between them. -/
def definition (item : Reader Node) : Reader ((List String × String) × Node) := do
  let name ← key
  one '='
  blanks
  return (name, ← item)

/-- Definitions between braces on one line. No comma stands after the last one. -/
def inlineTable (item : Reader Node) : Reader Node := do
  one '\x7b'
  let definitions ← separated (do
    let d ← definition item
    blanks
    return d) ','
  blanks
  one '\x7d'
  let built := definitions.foldlM (fun t d => t.define d.1.1 d.1.2 d.2) (Table.empty .inline)
  match built with
  | some t => return .table t
  | none => failure

def word (cs : List Char) (node : Node) : Reader Node := do
  exactly cs
  return node

/-- A value that nests no deeper than given. -/
def value : Nat → Reader Node
  | 0 => scalar
  | depth + 1 => array (value depth) <|> inlineTable (value depth) <|> scalar
where
  /-- A value without values in it. -/
  scalar : Reader Node :=
    (do return .text (← text)) <|> moment <|> float <|> integer <|>
      word ['t', 'r', 'u', 'e'] (.boolean true) <|>
      word ['f', 'a', 'l', 's', 'e'] (.boolean false)

end Reader

/-- A document while it is read: its tables, and the header of the present one. -/
structure Draft where
  root : Table Node
  header : List String

namespace Reader

/-- A header with one bracket on either side, or with two. -/
def header (draft : Draft) : Reader Draft := do
  let single : Reader Draft := do
    one '['
    let (path, name) ← key
    one ']'
    match draft.root.openTable path name with
    | some root => return ⟨root, path ++ [name]⟩
    | none => failure
  let double : Reader Draft := do
    exactly ['[', '[']
    let (path, name) ← key
    exactly [']', ']']
    match draft.root.openRow path name with
    | some root => return ⟨root, path ++ [name]⟩
    | none => failure
  let opened ← match ← get with
    | '[' :: '[' :: _ => double
    | _ => single
  lineRest
  return opened

/-- A definition on a line of its own. -/
def line (draft : Draft) : Reader Draft := do
  let ((path, name), node) ← definition (value (nestingBound - 1))
  lineRest
  match draft.root.edit false (Table.define path name node) draft.header with
  | some root => return { draft with root }
  | none => failure

/-- One statement, with the blanks after it. -/
def statement (draft : Draft) : Reader Draft := do
  let draft ← match ← peek with
    | some '#' => do
      comment
      lineEnd
      pure draft
    | some '[' => header draft
    | some '\n' | some '\r' => do
      newline
      pure draft
    | _ => line draft
  blanks
  return draft

/-- Statements to the end of the document, where each takes a character. -/
def statements : Nat → Draft → Reader Draft
  | 0, draft => do
    finish
    return draft
  | bound + 1, draft => do
    if (← get).isEmpty then return draft
    statements bound (← statement draft)

/-- A whole document, perhaps after a byte order mark. -/
def document : Reader (Table Node) := do
  let _ ← optional (one '\ufeff')
  blanks
  let draft ← statements (← get).length ⟨.empty .header, []⟩
  return draft.root

end Reader

/-- Reads a document. -/
def read (text : String) : Option (Table Node) :=
  (Reader.document.run text.toList).map (·.1)

end MixedModules.Toml
