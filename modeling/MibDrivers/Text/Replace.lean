/-!
# Replacing a part of a text

## Main definitions

* `Text.replace` — a text with each occurrence of a part replaced
-/

namespace MibDrivers.Text

/-- The characters after the next `skip` ones, with each occurrence of `part` replaced by
`value`. -/
def replaceFrom (part value : List Char) (skip : Nat) : List Char → List Char
  | [] => []
  | c :: rest =>
    match skip with
    | skip + 1 => replaceFrom part value skip rest
    | 0 =>
      if part.isPrefixOf (c :: rest) then value ++ replaceFrom part value (part.length - 1) rest
      else c :: replaceFrom part value 0 rest

/-- The characters with each occurrence of `part`, which is not empty, replaced by `value`.
Occurrences are found from the left and do not overlap. -/
def replace (part value : List Char) (cs : List Char) : List Char :=
  replaceFrom part value 0 cs

end MibDrivers.Text
