import JsonShape.Text.Quoted
/-!
# JsonShape.Catalogue

Everything that can be looked up by name: the public operations, each with the area of the program
that holds it, the areas, and what the whole has of its own.

* `Catalogue.find`: an operation, an area, or why there is none of that name.
* `Catalogue.values`: names of things that are no operations and so have no name to show.
-/

namespace JsonShape

namespace Catalogue

/-- The name of the whole, which the names of areas begin with. -/
def program : Text := "shapegen"

def qualified (name : Text) : Text := program ++ "." ++ name

/-- The operations of the whole itself: what finds and loads the others, and what makes finders. -/
def own : List Text := ["LazyLoader", "_load_module", "__getattr__"]

/-- Operations that anything has, and that belong to no area. -/
def universal : List Text :=
  ["__dir__", "__format__", "__getstate__", "__init_subclass__", "__new__", "__reduce__",
    "__reduce_ex__", "__sizeof__", "__subclasshook__"]

/-- Operations bound to the whole, which have a name but cannot tell their area. -/
def bound : List Text :=
  ["__delattr__", "__eq__", "__ge__", "__getattribute__", "__gt__", "__hash__", "__init__",
    "__le__", "__lt__", "__ne__", "__repr__", "__setattr__", "__str__"]

/-- Things that are neither operations nor areas, by their kind. -/
def values : List (Text × List Text) :=
  [("str", ["mod", "__name__", "__package__", "__file__", "__cached__", "__module__"]),
    ("dict", ["_mappings", "_modules", "__annotations__", "__builtins__", "__dict__"]),
    ("list", ["__path__"]), ("NoneType", ["__doc__", "__weakref__"]),
    ("SourceFileLoader", ["__loader__"]), ("ModuleSpec", ["__spec__"])]

/-- The finder itself, to which asking for its name is one more look-up. -/
def finder : Text := "_lazy_loader"

/-- The name under which the whole shows its kind. -/
def kindProperty : Text := "__class__"

/-- Areas from outside, which keep their names. -/
def borrowed : List Text := ["importlib"]

/-- The operations that can be called by name, with their areas. -/
def operations : List (Text × Text) :=
  [("value_to_shape", "shape_inference"), ("infer_shape", "shape_inference"),
    ("infer_shape_parallel", "shape_inference"), ("unify", "unification"),
    ("infer_shape_from_files", "jsonltoshape"), ("convert_jsonl_to_shape", "jsonltoshape"),
    ("convert_shape_to_json_schema", "shapetojsons"), ("convert_shape_to_typescript", "shapetots"),
    ("convert_jsonl_to_typescript", "shapetots")]

def areas : List Text :=
  ["_version", "common", "jsonltoshape", "samplereader", "shape", "shape_inference", "shapegen",
    "shapetojsons", "shapetots", "unification"]

/-- An operation with its home, if it has one, or an area. -/
inductive Entry where
  | operation (name : Text) (home : Option Text)
  | area (name : Text)
  deriving DecidableEq

/-- The kind of the whole, which is found like an operation. -/
def wholeKind : Entry := .operation "module" ("builtins" : Text)

inductive Fault where
  | reserved (name : Text)
  | noArea (name : Text)
  | notAGroup (name group : Text)
  | lacks (kind property : Text)
  deriving DecidableEq

def Fault.message : Fault → Text
  | .reserved name => name
  | .noArea name => "No module named " ++ (qualified name).quoted
  | .notAGroup name group =>
    "No module named " ++ (qualified name).quoted ++ "; " ++ (qualified group).quoted ++
      " is not a package"
  | .lacks kind property => "'" ++ kind ++ "' object has no attribute '" ++ property ++ "'"

/-- What an operation is asked for: its name, and then its home. -/
def nameProperty : Text := "__name__"

def homeProperty : Text := "__module__"

/-- Looks up what the whole has of its own. -/
def findOwn? (name : Text) : Option (Except Fault Entry) :=
  if own.contains name then some (.ok (.operation name (some program)))
  else if borrowed.contains name then some (.ok (.area name))
  else if universal.contains name then some (.ok (.operation name none))
  else if name = kindProperty then some (.ok wholeKind)
  else if name = finder then some (.error (.reserved nameProperty))
  else if bound.contains name then some (.error (.lacks "method-wrapper" homeProperty))
  else (values.find? fun v => v.2.contains name).map fun v => .error (.lacks v.1 nameProperty)

/-- Looks up an area; areas hold no further ones. -/
def findArea (name : Text) : Except Fault Entry :=
  match Text.splitOn Text.dot name with
  | [] => .error (.noArea name)
  | [_] => if areas.contains name then .ok (.area (qualified name)) else .error (.noArea name)
  | first :: second :: _ =>
    if areas.contains first then
      .error (.notAGroup (first ++ (Text.dot :: second)) first)
    else .error (.noArea first)

/-- What the whole has of its own comes first. Other names that begin with two underscores are
reserved. -/
def find (name : Text) : Except Fault Entry :=
  match findOwn? name with
  | some found => found
  | none =>
    if List.isPrefixOf ("__" : Text) name then .error (.reserved name)
    else match operations.find? fun o => o.1 = name with
      | some (name, home) => .ok (.operation name (some (qualified home)))
      | none => findArea name

end Catalogue

end JsonShape
