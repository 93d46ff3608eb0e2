import MibDrivers.Error
import MibDrivers.Text.Blank
import MibDrivers.Text.Decimal
import MibDrivers.Text.Split

/-!
# Object identifiers

An object identifier is a list of 32-bit arcs, a path from the root of the registration
tree. An identifier contains another if it is a strict prefix of it. The dotted text has
the arcs in decimal with a point between neighbours.

## Main definitions

* `Oid` — object identifiers, ordered lexicographically
* `Oid.isAncestorOf` — strict containment
* `Oid.dotted` — the dotted text
* `Oid.ofDotted` — reads a dotted text, blanks around it and a plus sign before an arc
  being allowed
-/

namespace MibDrivers

/-- An object identifier: the arcs from the root of the registration tree. -/
structure Oid where
  arcs : List UInt32
  deriving DecidableEq, Repr, Inhabited

namespace Oid

instance : Ord Oid where
  compare a b := List.compareLex compare a.arcs b.arcs

/-- The number of arcs. -/
def length (oid : Oid) : Nat := oid.arcs.length

/-- The root of the registration tree, which has no arcs. -/
def isRoot (oid : Oid) : Bool := oid.arcs.isEmpty

/-- `a` contains `b`: its arcs are the first arcs of `b`, and `b` has more. -/
def isAncestorOf (a b : Oid) : Bool :=
  a.arcs.length < b.arcs.length && a.arcs.isPrefixOf b.arcs

/-- The characters of the dotted text. -/
def dottedChars (oid : Oid) : List Char :=
  Text.joinWith ['.'] (oid.arcs.map fun arc => Text.decimal arc.toNat)

/-- The dotted text. -/
def dotted (oid : Oid) : String := String.ofList oid.dottedChars

/-- Reads one arc: digits, after at most one plus sign, of a value that fits 32 bits. -/
def arc? (cs : List Char) : Option UInt32 :=
  let digits := match cs with
    | '+' :: rest => rest
    | _ => cs
  (Text.digits? digits).bind fun value =>
    if value < UInt32.size then some (UInt32.ofNat value) else none

/-- Reads a dotted text. Blanks around it are dropped; what remains has at least one
arc. -/
def ofDotted? (text : String) : Option Oid :=
  ((Text.splitAt '.' (Text.trimChars text.toList)).mapM arc?).map Oid.mk

/-- Reads a dotted text, or says which text is none. -/
def ofDotted (text : String) : Except MibError Oid :=
  match ofDotted? text with
  | some oid => .ok oid
  | none => .error (.invalidOid text)

/-- Object identifiers in increasing order, equal ones in their given order. -/
def sort (oids : List Oid) : List Oid :=
  oids.mergeSort fun a b => (compare a b).isLE

end Oid

end MibDrivers
