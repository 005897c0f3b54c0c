import Quill.Heap.Object
import Quill.Number.Text
import Quill.Text.Quoted

/-!
Values as text: as programs print them, and as records for inspection.
-/

namespace Quill

set_option autoImplicit false

def Closure.display (closure : Closure) : String := s!"<fn {closure.name}>"

def Native.display (native : Native) : String := s!"<native fn {native.name}>"

namespace Inspect

def record (name : String) (fields : List (String × String)) : String :=
  name ++ " \x7b " ++
    String.intercalate ", " (fields.map fun field => field.1 ++ ": " ++ field.2) ++ " \x7d"

def nameList (names : List String) : String :=
  "[" ++ String.intercalate ", " (names.map Text.quoted) ++ "]"

def closure (closure : Closure) : String :=
  record "Function"
    [("name", Text.quoted closure.name), ("arity", toString closure.arity),
      ("is_constructor", if closure.isConstructor then "true" else "false")]

def native (native : Native) : String :=
  record "NativeFunction" [("name", Text.quoted native.name), ("arity", toString native.arity)]

end Inspect

namespace Heap

def className (heap : Heap) (ref : ClassRef) : String :=
  ((heap.class? ref).map Class.name).getD ""

def instanceDisplay (heap : Heap) (ref : InstanceRef) : String :=
  ((heap.instance? ref).map fun object => heap.className object.cls).getD "" ++ " instance"

/-- A value as `print` writes it and as it is joined to a string. -/
def display (heap : Heap) : Value → String
  | .nil => "nil"
  | .boolean true => "true"
  | .boolean false => "false"
  | .number value => Number.text value
  | .text value => value
  | .nativeRef ref => ((heap.native? ref).map Native.display).getD ""
  | .functionRef ref => ((heap.function? ref).map Closure.display).getD ""
  | .classRef ref => heap.className ref
  | .instanceRef ref => heap.instanceDisplay ref

def inspectClass (heap : Heap) (ref : ClassRef) : String :=
  match heap.class? ref with
  | none => ""
  | some cls =>
      let parent := match cls.parent with
        | some parent => "Some(" ++ Text.quoted (heap.className parent) ++ ")"
        | none => "None"
      Inspect.record "Class"
        [("name", Text.quoted cls.name), ("parent", parent),
          ("methods", Inspect.nameList cls.methods.names)]

/-- An instance as a record. Only the names of the fields are shown, since what they hold may lead
back to the instance. -/
def inspectInstance (heap : Heap) (ref : InstanceRef) : String :=
  match heap.instance? ref with
  | none => ""
  | some object =>
      Inspect.record "Instance"
        [("class", Text.quoted (heap.className object.cls)),
          ("fields", Inspect.nameList object.fields.names)]

def inspect? (heap : Heap) : Value → Option String
  | .nativeRef ref => (heap.native? ref).map fun native => s!"Native({Inspect.native native})"
  | .functionRef ref =>
      (heap.function? ref).map fun closure => s!"Function({Inspect.closure closure})"
  | .classRef ref => some s!"Class({heap.inspectClass ref})"
  | .instanceRef ref => some s!"Instance({heap.inspectInstance ref})"
  | _ => none

end Heap

end Quill
