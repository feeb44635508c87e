import Std.Data.TreeMap

namespace SceneExpr

structure Behavior where
  name : String
  type : String
deriving DecidableEq, Repr

structure SceneObject where
  name : String
  type : String
  behaviors : List Behavior := []
deriving DecidableEq, Repr

namespace SceneObject

def behaviorType? (o : SceneObject) (behavior : String) : Option String :=
  (o.behaviors.find? fun b => b.name = behavior).map (·.type)

end SceneObject

abbrev ObjectIndex := Std.TreeMap String SceneObject

namespace ObjectIndex

def enter (index : ObjectIndex) : List SceneObject → ObjectIndex
  | [] => index
  | o :: os => enter (index.insert o.name o) os

/-- Global objects are entered first, so that those of the scene take their place. -/
def ofObjects (objects globals : List SceneObject) : ObjectIndex := enter (enter {} globals) objects

end ObjectIndex

structure Scene where
  objects : List SceneObject
  globals : List SceneObject
  index : ObjectIndex
  index_eq : index = ObjectIndex.ofObjects objects globals

namespace Scene

/-- A scene with its index; nothing is checked. -/
def indexed (objects globals : List SceneObject) : Scene :=
  ⟨objects, globals, ObjectIndex.ofObjects objects globals, rfl⟩

def empty : Scene := indexed [] []

def object? (s : Scene) (name : String) : Option SceneObject := s.index[name]?

def objectType? (s : Scene) (name : String) : Option String := (s.object? name).map (·.type)

def allObjects (s : Scene) : List SceneObject := s.objects ++ s.globals

/-- The type of a behavior as attached to the object, or else to the first object that has one of
that name. -/
def behaviorType? (s : Scene) (object behavior : String) : Option String :=
  ((s.object? object).bind (·.behaviorType? behavior)) <|>
    s.allObjects.findSome? (·.behaviorType? behavior)

def behaviorNames (s : Scene) (object : String) : List String :=
  match s.object? object with
  | none => []
  | some o => o.behaviors.map (·.name)

def hasBehavior (s : Scene) (object behavior : String) : Bool :=
  (s.behaviorNames object).contains behavior

end Scene

end SceneExpr
