import MixedModules.Specifier.Path
import MixedModules.Specifier.Resolver

/-! Resolution against a tree of directories.

A specifier becomes a path, and the path a short list of candidates: the path as
written, the path with each known extension, and the index file of the directory
it may name. The first candidate that is a file gives the identity, which is the
file's own place from the root of the tree, free of dots and repeated slashes. -/
namespace MixedModules.Specifier

/-- The files and the directories of a tree, each by its names from the root. A
file's directories are there without being listed. -/
structure FileTree where
  files : List (List (List Char))
  directories : List (List (List Char))
deriving Repr

namespace FileTree

def isFile (t : FileTree) (place : List (List Char)) : Bool := t.files.contains place

/-- The root, every listed directory, and whatever holds one of them or a file. -/
def isDirectory (t : FileTree) (place : List (List Char)) : Bool :=
  place.isEmpty ||
  t.directories.any (fun d => place.isPrefixOf d) ||
  t.files.any (fun f => place.isPrefixOf f && f != place)

/-- Follows segments from a place. Even a segment that stays put needs a directory
to stay in, and above the root there is only the root. -/
def follow (t : FileTree) : List (List Char) → List (List Char) → Option (List (List Char))
  | place, [] => some place
  | place, segment :: rest =>
    if !t.isDirectory place then none
    else match Path.stepOf? segment with
      | none => t.follow place rest
      | some .up => t.follow place.dropLast rest
      | some (.name text) =>
        let next := place ++ [text]
        if t.isFile next || t.isDirectory next then t.follow next rest else none

/-- A path is followed only if its bytes are fewer than these, dots and repeated
slashes included. -/
def pathLimit : Nat := 4096

/-- The place of the file that an absolute path leads to. A path that is too long
leads nowhere. -/
def locateFile? (t : FileTree) (path : List Char) : Option (List (List Char)) :=
  if Path.isAbsolute path ∧ (String.ofList path).utf8ByteSize < pathLimit then
    (t.follow [] (Path.segments path)).filter t.isFile
  else none

end FileTree

namespace Directory

/-- Which files a specifier without an extension may mean, in order. -/
structure Settings where
  extensions : List String
  indexFile : String
deriving DecidableEq, Repr

/-- The paths tried for one base, in order. -/
def candidates (settings : Settings) (base : List Char) : List (List Char) :=
  base ::
    settings.extensions.map (fun extension => base ++ '.' :: extension.toList) ++
    settings.extensions.map fun extension =>
      Path.join base (settings.indexFile.toList ++ '.' :: extension.toList)

/-- The base path of a specifier. Only the entry may be a bare name below the root
directory. -/
def base? (root : List Char) (specifier : String) (referrer : Option String) :
    Option (List Char) :=
  if Path.isAbsolute specifier.toList then some specifier.toList
  else if isRelative specifier || referrer.isNone then
    let directory := (referrer.bind fun identity => Path.parent? identity.toList).getD root
    some (Path.join directory specifier.toList)
  else none

/-- The resolver of a tree, with entries below the directory `root`. -/
def resolver (tree : FileTree) (root : List Char) (settings : Settings) : Resolver :=
  fun specifier referrer =>
    if isUrl specifier then .error (.url specifier)
    else match base? root specifier referrer with
      | none => .error (.unknown specifier)
      | some base =>
        let tried := candidates settings base
        match tried.findSome? tree.locateFile? with
        | some place => .ok (String.ofList ('/' :: Path.ofSegments place))
        | none => .error (.notFound specifier (tried.map String.ofList))

end Directory
end MixedModules.Specifier
