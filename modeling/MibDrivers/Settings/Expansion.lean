import MibDrivers.Text.Alphanumeric
import MibDrivers.Text.Split

/-!
# Variables in paths

A path may refer to variables of the environment: `$NAME`, `$` before a name in braces, and
the same with a default for a variable that is unset. A doubled `$` stands for one `$`, and a
`$` before anything else for itself. A path that refers to an unset variable without a
default is left as it is.

After that a leading `~` that is a whole component stands for the home directory, provided
that it was already there before variables were replaced.

## Main definitions

* `Environment` — names with values
* `Expansion.home?` — the home directory
* `Expansion.variables?` — replaces variables
* `Expansion.expand` — replaces variables and the leading `~`
-/

namespace MibDrivers

/-- The variables of the environment, each with its value. -/
abbrev Environment := List (String × String)

/-- The value of a variable. The environment consists of assignments, and a name is looked up as
what stands before an `=` of one of them. So a name that itself contains an `=` finds what
follows it in the value of a variable. -/
def Environment.value? (environment : Environment) (name : String) : Option String :=
  environment.findSome? fun (known, value) =>
    (Text.dropPrefix? (name.toList ++ ['=']) (known.toList ++ '=' :: value.toList)).map
      String.ofList

namespace Expansion

/-- The home directory: the variable `HOME`, or else the one of the account. An empty text is
none. -/
def home? (environment : Environment) (accountHome? : Option String) : Option String :=
  ((environment.value? "HOME").filter (!·.isEmpty)).or (accountHome?.filter (!·.isEmpty))

/-- A character of a variable name that stands without braces. -/
def isVariableChar (c : Char) : Bool := Text.isAlphanumeric c || c = '_'

/-- The characters before and after the first `:-`. -/
def splitDefault? : List Char → Option (List Char × List Char)
  | [] => none
  | ':' :: '-' :: rest => some ([], rest)
  | c :: rest => (splitDefault? rest).map fun (name, fallback) => (c :: name, fallback)

/-- The value of what stands in braces: a name, or a name and a default with the first `:-`
between them. Without a name before it, `:-` has no meaning. -/
def braced? (environment : Environment) (content : List Char) : Option (List Char) :=
  match splitDefault? content with
  | some (c :: name, fallback) =>
    some (((environment.value? (String.ofList (c :: name))).map String.toList).getD fallback)
  | _ => (environment.value? (String.ofList content)).map String.toList

/-- Replaces variables, or fails at one that is unset and has no default. -/
def variables? (environment : Environment) : List Char → Option (List Char)
  | [] => some []
  | '$' :: '$' :: rest => (variables? environment rest).map ('$' :: ·)
  | '$' :: '\x7b' :: rest =>
    if '\x7d' ∈ rest then do
      let value ← braced? environment (rest.takeWhile (· ≠ '\x7d'))
      let after ← variables? environment ((rest.dropWhile (· ≠ '\x7d')).drop 1)
      return value ++ after
    else (variables? environment rest).map ('$' :: '\x7b' :: ·)
  | '$' :: c :: rest =>
    if isVariableChar c then do
      let value ← environment.value? (String.ofList (c :: rest.takeWhile isVariableChar))
      let after ← variables? environment (rest.dropWhile isVariableChar)
      return value.toList ++ after
    else (variables? environment (c :: rest)).map ('$' :: ·)
  | c :: rest => (variables? environment rest).map (c :: ·)
termination_by cs => cs.length
decreasing_by
  all_goals simp only [List.length_cons, List.length_drop]
  · omega
  · have := (List.dropWhile_suffix (l := rest) (· ≠ '\x7d')).length_le
    omega
  · omega
  · have := (List.dropWhile_suffix (l := rest) isVariableChar).length_le
    omega
  · omega
  · omega

/-- Replaces a leading `~` that is a whole component by the home directory. -/
def tilde (home? : Option String) (path : List Char) : List Char :=
  match path, home? with
  | ['~'], some home => home.toList
  | '~' :: '/' :: rest, some home => home.toList ++ '/' :: rest
  | _, _ => path

/-- Replaces variables and the leading `~`. -/
def expand (environment : Environment) (home? : Option String) (path : String) : String :=
  match variables? environment path.toList with
  | none => path
  | some expanded =>
    if path.toList.head? = some '~' then String.ofList (tilde home? expanded)
    else String.ofList expanded

end Expansion

end MibDrivers
