/-! Slash-separated paths as plain text.

A path is a list of characters. Its segments are what stands between slashes, and
an empty segment or a single dot names no place of its own. The parent and the
join are operations on the text: they keep repeated slashes and dots inside a
path as they were written. -/
namespace MixedModules.Specifier

/-- What one segment asks for when a path is walked. -/
inductive Step where
  | up
  | name (text : List Char)
deriving DecidableEq, Repr

namespace Path

/-- The pieces between slashes, empty ones included. -/
def segments : List Char → List (List Char)
  | [] => [[]]
  | c :: rest =>
    if c = '/' then [] :: segments rest
    else match segments rest with
      | [] => [[c]]
      | head :: tail => (c :: head) :: tail

/-- Segments written one after the other with slashes between them. -/
def ofSegments : List (List Char) → List Char
  | [] => []
  | [only] => only
  | head :: rest => head ++ '/' :: ofSegments rest

def isAbsolute (path : List Char) : Bool := path.head? == some '/'

/-- An empty segment and a single dot stay where they are. -/
def staysPut (segment : List Char) : Bool := segment == [] || segment == ['.']

def stepOf? (segment : List Char) : Option Step :=
  if staysPut segment then none
  else if segment = ['.', '.'] then some .up
  else some (.name segment)

/-- The steps of a path, from its start. -/
def steps (path : List Char) : List Step := (segments path).filterMap stepOf?

/-- Drops the segments at the end that stay put. -/
def trimEnd (ss : List (List Char)) : List (List Char) :=
  (ss.reverse.dropWhile staysPut).reverse

/-- A path below `base`. An absolute `path` stands for itself, and a slash is
added only where `base` has none at its end. -/
def join (base path : List Char) : List Char :=
  if isAbsolute path then path
  else if base = [] ∨ base.getLast? = some '/' then base ++ path
  else base ++ '/' :: path

/-- The path without its last step, and without what stays put before it. The root
and the empty path have no parent, and a leading dot counts as a step only when
nothing follows it. -/
def parent? (path : List Char) : Option (List Char) :=
  match segments path with
  | [] => none
  | first :: rest =>
    if first = [] ∧ rest ≠ [] then
      match trimEnd rest with
      | [] => none
      | body => match trimEnd body.dropLast with
        | [] => some ['/']
        | kept => some (ofSegments ([] :: kept))
    else if first = ['.'] then
      match trimEnd rest with
      | [] => some []
      | body => some (ofSegments (['.'] :: trimEnd body.dropLast))
    else
      match trimEnd (first :: rest) with
      | [] => none
      | body => some (ofSegments (trimEnd body.dropLast))

end Path
end MixedModules.Specifier
