import MibDrivers.Failure
import MibDrivers.Settings.Basic
import MibDrivers.Text.Alphanumeric

/-!
# Valid settings

The name of the root class and the path of the runtime types end up in the generated source,
so they have to be written like a type name and a module path, in ASCII.

## Main definitions

* `Settings.isRootName`, `Settings.isRuntimePath` — the accepted texts
* `Settings.validate` — refuses settings with another text
-/

namespace MibDrivers.Settings

/-- A character of a name: an ASCII letter or digit or `_`. -/
def isNameChar (c : Char) : Bool := Text.isAsciiAlphanumeric c || c = '_'

/-- A character that begins a segment of a path: an ASCII letter or `_`. -/
def isNameStart (c : Char) : Bool :=
  ('A' ≤ c && c ≤ 'Z') || ('a' ≤ c && c ≤ 'z') || c = '_'

/-- An upper case ASCII letter and then characters of a name. -/
def isRootName : List Char → Bool
  | [] => false
  | c :: rest => 'A' ≤ c && c ≤ 'Z' && rest.all isNameChar

mutual

/-- A path: a segment begins here. -/
def isRuntimePath : List Char → Bool
  | [] => false
  | c :: rest => isNameStart c && isPathRest rest

/-- The rest of a path within a segment, which may end here or be followed by `::` and
another segment. -/
def isPathRest : List Char → Bool
  | [] => true
  | ':' :: ':' :: rest => isRuntimePath rest
  | c :: rest => isNameChar c && isPathRest rest

end

/-- Refuses settings whose root class or runtime path is not written as one. -/
def validate (settings : Settings) : Except ConfigError Unit :=
  if !isRootName settings.generator.rootName.toList then
    .error (.rootName settings.generator.rootName)
  else if !isRuntimePath settings.generator.runtimePath.toList then
    .error (.runtimePath settings.generator.runtimePath)
  else .ok ()

end MibDrivers.Settings
