import SceneExpr.Command.Run

namespace SceneExpr.Command

def failureOf : IO.Error → ReadFailure
  | .permissionDenied .. => .denied
  | .inappropriateType _ code _ => if code = 21 then .isFolder else .notFolder
  | .invalidArgument .. => .nameTooLong
  | .userError _ => .notText
  | _ => .missing

def readText (path : String) : IO (Except ReadFailure String) := do
  try
    return .ok (← IO.FS.readFile path)
  catch e =>
    return .error (failureOf e)

def gather (invocation : Invocation) : IO Surroundings := do
  let texts ← invocation.files.mapM fun path => return (path, ← readText path)
  let input ← if invocation.readsInput then (← IO.getStdin).readToEnd else pure ""
  return { read := fun path => (texts.lookup path).getD (.error .missing), input := input }

def perform (words : List String) : IO UInt32 := do
  let outcome ←
    match Invocation.ofWords? words with
    | none => pure refusal
    | some invocation => invocation.run <$> gather invocation
  IO.print outcome.output
  outcome.notes.forM IO.eprintln
  return outcome.exit.toUInt32

end SceneExpr.Command

def main (words : List String) : IO UInt32 := SceneExpr.Command.perform words
