import MibDrivers.Driver.Plan
import MibDrivers.Text.Blank

/-!
# The source of a driver

The source of a planned driver is Rust. It opens with a comment and the import of the
runtime types, then come the classes with the root class last. Each class is a structure
that holds the context, with one method for each member; descriptions become doc comments.

## Main definitions

* `Driver.docLines` — a description as lines of a doc comment
* `Driver.classLines`, `Driver.sourceLines` — the lines of a class and of the whole source
* `Driver.render` — the text of the source
-/

namespace MibDrivers.Driver

/-- The lines of a description without the blanks around them, from the first to the last
one that is not empty. -/
def paragraphs (description : String) : List (List Char) :=
  let trimmed := (Text.lines description.toList).map Text.trimChars
  ((trimmed.dropWhile List.isEmpty).reverse.dropWhile List.isEmpty).reverse

/-- A description as lines of a doc comment. -/
def docLines (indent : List Char) (description : String) : List (List Char) :=
  (paragraphs description).map fun line =>
    if line.isEmpty then indent ++ "///".toList else indent ++ "/// ".toList ++ line

/-- The lines of a method. -/
def memberLines (m : Member) : List (List Char) :=
  docLines "    ".toList m.description ++
  match m.target with
  | .child name => [
      "    pub fn ".toList ++ m.method.toList ++ "(&self) -> ".toList ++ name.toList ++
        " \x7b".toList,
      "        ".toList ++ name.toList ++ "::new(self.ctx.clone())".toList,
      "    \x7d".toList]
  | .leaf kind oid => [
      "    pub fn ".toList ++ m.method.toList ++ "(&self, index: Option<u32>) -> ".toList ++
        kind.typeName.toList ++ " \x7b".toList,
      "        let oid = format!(\"".toList ++ oid.dottedChars ++
        ".\x7b\x7d\", index.unwrap_or(0));".toList,
      "        ".toList ++ kind.typeName.toList ++ (match kind with
        | .readOnly => "::new(oid, self.ctx.getter())".toList
        | .readWrite => "::new(oid, self.ctx.getter(), self.ctx.setter())".toList),
      "    \x7d".toList]

/-- The doc comment of a class: its description, and its identifier after an empty line. -/
def classDocLines (c : Class) : List (List Char) :=
  docLines [] c.description ++
  match c.oid with
  | none => []
  | some oid =>
    (if (Text.trim c.description).isEmpty then [] else ["///".toList]) ++
      ["/// OID `".toList ++ oid.dottedChars ++ "`".toList]

/-- The lines that make the root class a driver. -/
def driverLines (c : Class) : List (List Char) :=
  match c.kind with
  | .root => [
      [],
      "impl ".toList ++ driverTrait.toList ++ " for ".toList ++ c.name.toList ++ " \x7b".toList,
      "    fn context(&self) -> &".toList ++ contextType.toList ++ " \x7b".toList,
      "        &self.ctx".toList,
      "    \x7d".toList,
      "\x7d".toList]
  | .group | .leaves => []

/-- The lines of a class. -/
def classLines (c : Class) : List (List Char) :=
  classDocLines c ++ [
    "#[derive(Clone)]".toList,
    "pub struct ".toList ++ c.name.toList ++ " \x7b".toList,
    "    ctx: ".toList ++ contextType.toList ++ ",".toList,
    "\x7d".toList,
    [],
    "impl ".toList ++ c.name.toList ++ " \x7b".toList,
    "    pub fn new(ctx: ".toList ++ contextType.toList ++ ") -> Self \x7b".toList,
    "        Self \x7b ctx \x7d".toList,
    "    \x7d".toList] ++
  (c.members.flatMap fun m => [] :: memberLines m) ++ ["\x7d".toList] ++ driverLines c

/-- The lines before the first class. -/
def headerLines (options : Options) : List (List Char) :=
  [(match options.moduleName with
    | some name =>
      "// @generated by mibgen from ".toList ++ name.toList ++ ". Do not edit by hand.".toList
    | none => "// @generated by mibgen. Do not edit by hand.".toList),
    [],
    "#[allow(unused_imports)]".toList,
    "use ".toList ++ options.runtimePath.toList ++ "::\x7b".toList ++
      Text.joinWith ", ".toList
        ([readOnlyType, readWriteType, contextType, driverTrait].map String.toList) ++
      "\x7d;".toList]

/-- The classes in the order of the source: the root class after the others. -/
def sourceOrder (classes : List Class) : List Class :=
  classes.filter (·.kind ≠ .root) ++ classes.filter (·.kind = .root)

/-- The lines of the source. -/
def sourceLines (classes : List Class) (options : Options) : List (List Char) :=
  headerLines options ++ (sourceOrder classes).flatMap fun c => [] :: classLines c

/-- The text of the source. -/
def render (classes : List Class) (options : Options) : String :=
  String.ofList ((sourceLines classes options).flatMap (· ++ ['\n']))

end MibDrivers.Driver
