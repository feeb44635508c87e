namespace SceneExpr

inductive ValueKind where
  | number
  | text
deriving DecidableEq, Repr

namespace ValueKind

def tag : ValueKind → String
  | .number => "number"
  | .text => "text"

def ofTag? (tag : String) : Option ValueKind :=
  match tag with
  | "number" => some .number
  | "text" => some .text
  | _ => none

@[simp] theorem ofTag?_tag (k : ValueKind) : ofTag? k.tag = some k := by
  cases k <;> rfl

end ValueKind

/-- Whom a function is addressed to: nobody, an object, or a behavior of an object. -/
inductive Scope where
  | static
  | object
  | behavior
deriving DecidableEq, Repr

namespace Scope

def all : List Scope := [.static, .object, .behavior]

def tag : Scope → String
  | .static => "static"
  | .object => "object"
  | .behavior => "behavior"

def ofTag? (tag : String) : Option Scope :=
  match tag with
  | "static" => some .static
  | "object" => some .object
  | "behavior" => some .behavior
  | _ => none

@[simp] theorem ofTag?_tag (s : Scope) : ofTag? s.tag = some s := by
  cases s <;> rfl

end Scope

inductive ParameterKind where
  | expression
  | camera
  | string
  | layer
  | color
  | file
  | joystickAxis
  | other (tag : String)
deriving DecidableEq, Repr

namespace ParameterKind

def tag : ParameterKind → String
  | .expression => "expression"
  | .camera => "camera"
  | .string => "string"
  | .layer => "layer"
  | .color => "color"
  | .file => "file"
  | .joystickAxis => "joyaxis"
  | .other tag => tag

def ofTag (tag : String) : ParameterKind :=
  match tag with
  | "expression" => .expression
  | "camera" => .camera
  | "string" => .string
  | "layer" => .layer
  | "color" => .color
  | "file" => .file
  | "joyaxis" => .joystickAxis
  | tag => .other tag

def valueKind? : ParameterKind → Option ValueKind
  | .expression | .camera => some .number
  | .string | .layer | .color | .file | .joystickAxis => some .text
  | .other _ => none

def isOther : ParameterKind → Bool
  | .other _ => true
  | _ => false

@[simp] theorem tag_ofTag (tag : String) : (ofTag tag).tag = tag := by
  unfold ofTag
  split <;> rfl

end ParameterKind

/-- A parameter that only the code generator fills in is never written by authors. The default value
stands in for a blank optional argument; an empty one means the neutral value of the kind. -/
structure Parameter where
  kind : ParameterKind
  optional : Bool := false
  generatorOnly : Bool := false
  defaultValue : String := ""
  name : Option String := none
  description : Option String := none
deriving DecidableEq, Repr

namespace Parameter

def isAuthorVisible (p : Parameter) : Bool := !p.generatorOnly

/-- The name of the parameter, or else the tag of its kind; brackets mark an optional one. -/
def label (p : Parameter) : String :=
  let text := p.name.getD p.kind.tag
  if p.optional then s!"[{text}]" else text

end Parameter

/-- A function. Its owner type is empty if every object has it. -/
structure Signature where
  name : String
  scope : Scope
  ownerType : Option String := none
  returns : ValueKind
  parameters : List Parameter := []
  description : Option String := none
deriving DecidableEq, Repr

namespace Signature

def authorParameters (s : Signature) : List Parameter :=
  s.parameters.filter Parameter.isAuthorVisible

def minArguments (s : Signature) : Nat := (s.authorParameters.filter fun p => !p.optional).length

def maxArguments (s : Signature) : Nat := s.authorParameters.length

def display (s : Signature) : String :=
  let owner :=
    match s.scope, s.ownerType with
    | .behavior, some type => s!"{type}::"
    | _, _ => ""
  let labels := ", ".intercalate (s.authorParameters.map Parameter.label)
  s!"{owner}{s.name}({labels})"

def owner (s : Signature) : String := s.ownerType.getD ""

end Signature

end SceneExpr
