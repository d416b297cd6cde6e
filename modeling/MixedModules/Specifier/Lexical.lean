import MixedModules.Scope
import MixedModules.Specifier.Path
import MixedModules.Specifier.Resolver

/-! Resolution by names alone, without looking at any directory.

Bare specifiers go through a table of aliases. A specifier that starts with a dot
or a slash is walked, from the directory of the module that asks or from the root,
on a stack of names: a name is pushed, and two dots pop one. Whoever pops from
nothing leaves the module root. -/
namespace MixedModules.Specifier.Lexical

/-- Walks steps on a stack with the last name on top. From the root one may climb
back up to the root itself; a walk that starts at no root may never leave its
stack empty by climbing. -/
def walk (absolute : Bool) : List Step → List (List Char) → Option (List (List Char))
  | [], stack => some stack
  | .name text :: rest, stack => walk absolute rest (text :: stack)
  | .up :: rest, stack =>
    match stack with
    | [] => none
    | _ :: below => if !absolute && below.isEmpty then none else walk absolute rest below

/-- The text of a place: its names with slashes between them, after a slash if it
is below the root. -/
def place (absolute : Bool) (stack : List (List Char)) : List Char :=
  (if absolute then ['/'] else []) ++ Path.ofSegments stack.reverse

/-- Walks `specifier` from the directory `base`. -/
def walkFrom (base : List Char) (specifier : String) : Except ResolveError String :=
  let path := Path.join base specifier.toList
  let absolute := Path.isAbsolute path
  match walk absolute (Path.steps path) [] with
  | some stack => .ok (String.ofList (place absolute stack))
  | none => .error (.outsideRoot specifier)

/-- The directory of the module that asks, the root if nobody asks or if it has no
directory. -/
def directoryOf (referrer : Option String) : List Char :=
  (referrer.bind fun identity => Path.parent? identity.toList).getD ['/']

/-- The resolver of a table of aliases. An alias wins over every other reading of
a specifier. -/
def resolver (aliases : Scope String) : Resolver := fun specifier referrer =>
  match aliases.get? specifier with
  | some identity => .ok identity
  | none =>
    if isUrl specifier then .error (.url specifier)
    else match specifier.toList with
      | '/' :: rest => walkFrom ['/'] (String.ofList rest)
      | _ =>
        if isRelative specifier then walkFrom (directoryOf referrer) specifier
        else .error (.unknown specifier)

end MixedModules.Specifier.Lexical
