import MixedModules.Text.Quoted

/-! What it is to resolve a specifier.

A resolver turns the specifier in a module's text into the identity of the module
meant, given the identity of the module that asks. The entry of a graph is asked
for by nobody. -/
namespace MixedModules.Specifier

/-- Why a specifier has no identity. -/
inductive ResolveError where
  | notFound (specifier : String) (tried : List String)
  | unknown (specifier : String)
  | outsideRoot (specifier : String)
  | url (specifier : String)
deriving DecidableEq, Repr

/-- From a specifier and the identity that asks to an identity. -/
abbrev Resolver := String → Option String → Except ResolveError String

/-- Paths in quotes between brackets. -/
def quotedPaths (paths : List String) : String :=
  "[" ++ ", ".intercalate (paths.map Text.quoted) ++ "]"

def ResolveError.label : ResolveError → String
  | .notFound .. => "ModuleNotFound"
  | .unknown _ => "UnknownSpecifier"
  | .outsideRoot _ => "OutsideRoot"
  | .url _ => "UrlNotSupported"

def ResolveError.message : ResolveError → String
  | .notFound specifier tried =>
    s!"Module not found: {specifier} (tried: {quotedPaths tried})"
  | .unknown specifier => s!"Unknown module specifier: {specifier}"
  | .outsideRoot specifier => s!"Specifier escapes the module root: {specifier}"
  | .url specifier => s!"URL imports not supported: {specifier}"

/-- Whether a specifier starts at the module that asks. -/
def isRelative (specifier : String) : Bool :=
  specifier.startsWith "./" || specifier.startsWith "../"

/-- Whether a specifier is an address on the network. -/
def isUrl (specifier : String) : Bool :=
  specifier.startsWith "http://" || specifier.startsWith "https://"

end MixedModules.Specifier
