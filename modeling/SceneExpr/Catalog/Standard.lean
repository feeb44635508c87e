import SceneExpr.Catalog.Basic

namespace SceneExpr.Catalog

namespace Standard

def given (kind : ParameterKind) (name : String) : Parameter where
  kind := kind
  name := some name

def allowed (kind : ParameterKind) (name : String) (defaultValue : String) : Parameter where
  kind := kind
  optional := true
  defaultValue := defaultValue
  name := some name

def currentScene : Parameter where
  kind := .other "currentScene"
  generatorOnly := true

def function (name : String) (returns : ValueKind) (parameters : List Parameter) : Signature where
  name := name
  scope := .static
  returns := returns
  parameters := parameters

def objectFunction (type name : String) (returns : ValueKind) (parameters : List Parameter) :
    Signature where
  name := name
  scope := .object
  ownerType := some type
  returns := returns
  parameters := parameters

def behaviorFunction (type name : String) (returns : ValueKind) : Signature where
  name := name
  scope := .behavior
  ownerType := some type
  returns := returns

def mathFunctions : List Signature := [
  { function "Random" .number [given .expression "max"] with
    description := some "Random integer between 0 and max" },
  function "RandomInRange" .number [given .expression "min", given .expression "max"],
  function "RandomFloat" .number [given .expression "max"],
  function "Round" .number [given .expression "value", allowed .expression "decimals" ""],
  function "Clamp" .number
    [given .expression "value", given .expression "min", given .expression "max"],
  function "Lerp" .number [given .expression "a", given .expression "b", given .expression "x"],
  function "AngleDifference" .number [given .expression "angle1", given .expression "angle2"]]

def sceneFunctions : List Signature := [
  { function "TimeDelta" .number [currentScene] with
    description := some "Elapsed time since the last frame, in seconds" },
  function "TimeFromStart" .number [currentScene],
  function "TimerElapsedTime" .number [currentScene, given .string "timer"],
  function "SceneName" .text [currentScene],
  function "Count" .number [given (.other "objectList") "object", currentScene]]

def variableFunctions : List Signature := [
  function "Variable" .number [given (.other "scenevar") "variable"],
  function "VariableString" .text [given (.other "scenevar") "variable"],
  function "GlobalVariable" .number [given (.other "globalvar") "variable"],
  function "GlobalVariableString" .text [given (.other "globalvar") "variable"]]

def cameraFunctions : List Signature := [
  function "CameraX" .number
    [currentScene, allowed .layer "layer" "\"\"", allowed .camera "camera" ""],
  function "CameraY" .number
    [currentScene, allowed .layer "layer" "\"\"", allowed .camera "camera" ""],
  function "CursorX" .number [currentScene, allowed .layer "layer" "", allowed .camera "camera" ""]]

def stringFunctions : List Signature := [
  function "ToString" .text [given .expression "value"],
  function "ToNumber" .number [given .string "text"],
  function "StrLength" .number [given .string "text"],
  function "StrFind" .number [given .string "text", given .string "search"],
  function "SubStr" .text
    [given .string "text", given .expression "start", allowed .expression "length" "1"],
  function "UpperCase" .text [given .string "text"],
  function "LowerCase" .text [given .string "text"],
  function "NewLine" .text [],
  function "StrRepeat" .text [given .string "text", given .expression "count"]]

def objectFunctions : List Signature := [
  objectFunction "" "X" .number [],
  objectFunction "" "Y" .number [],
  objectFunction "" "Angle" .number [],
  objectFunction "" "Width" .number [],
  objectFunction "" "Height" .number [],
  objectFunction "" "ZOrder" .number [],
  objectFunction "" "Layer" .text [],
  objectFunction "" "ObjectName" .text [],
  objectFunction "" "PointX" .number [given .string "point"],
  objectFunction "" "DistanceToPosition" .number [given .expression "x", given .expression "y"],
  objectFunction "" "Variable" .number [given (.other "objectvar") "variable"],
  objectFunction "" "VariableString" .text [given (.other "objectvar") "variable"],
  objectFunction "Sprite" "Animation" .number [],
  objectFunction "Sprite" "AnimationName" .text [],
  objectFunction "Sprite" "Opacity" .number [],
  objectFunction "TextObject::Text" "String" .text [],
  objectFunction "TextObject::Text" "FontSize" .number []]

def behaviorFunctions : List Signature := [
  behaviorFunction "PlatformBehavior::PlatformerObjectBehavior" "MaxSpeed" .number,
  behaviorFunction "PlatformBehavior::PlatformerObjectBehavior" "JumpSpeed" .number,
  behaviorFunction "PlatformBehavior::PlatformerObjectBehavior" "Gravity" .number,
  behaviorFunction "Physics2::Physics2Behavior" "LinearVelocityX" .number,
  behaviorFunction "Physics2::Physics2Behavior" "LinearVelocityY" .number,
  behaviorFunction "Physics2::Physics2Behavior" "AngularVelocity" .number]

end Standard

def standard : Catalog := .indexed "1.0" <|
  Standard.mathFunctions ++ Standard.sceneFunctions ++ Standard.variableFunctions ++
    Standard.cameraFunctions ++ Standard.stringFunctions ++ Standard.objectFunctions ++
    Standard.behaviorFunctions

end SceneExpr.Catalog
