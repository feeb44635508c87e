import SceneExpr.Text.Width

namespace SceneExpr.Command

inductive ReadFailure where
  | missing
  | denied
  | notFolder
  | isFolder
  | nameTooLong
  | notText
deriving DecidableEq, Repr

def ReadFailure.message : ReadFailure → String
  | .missing => "No such file or directory (os error 2)"
  | .denied => "Permission denied (os error 13)"
  | .notFolder => "Not a directory (os error 20)"
  | .isFolder => "Is a directory (os error 21)"
  | .nameTooLong => "File name too long (os error 36)"
  | .notText => "stream did not contain valid UTF-8"

/-- The names that lead from a folder to what lies in it. -/
abbrev Route := List (List Char)

namespace Route

def ofPath : List Char → Route
  | [] => [[]]
  | c :: cs =>
    if c = '/' then [] :: ofPath cs
    else
      match ofPath cs with
      | [] => [[c]]
      | name :: names => (c :: name) :: names

theorem ofPath_ne_nil (path : List Char) : ofPath path ≠ [] := by
  cases path with
  | nil => simp [ofPath]
  | cons c cs =>
    rw [ofPath]
    split
    · simp
    · split <;> simp

theorem intercalate_ofPath (path : List Char) : ['/'].intercalate (ofPath path) = path := by
  induction path with
  | nil => rfl
  | cons c cs ih =>
    obtain ⟨name, names, h⟩ := List.exists_cons_of_ne_nil (ofPath_ne_nil cs)
    rw [h] at ih
    rw [ofPath, h]
    split
    next hc => simp [List.intercalate_cons_cons, ih, hc]
    next => cases names <;> simp_all [List.intercalate_cons_cons]

def isIdle (name : List Char) : Bool := name = [] || name = ['.']

end Route

inductive Entry where
  | file (text : String)
  | folder
deriving DecidableEq, Repr

/-- Texts under their routes, and folders without any. -/
structure Folder where
  files : List (Route × String) := []
  folders : List Route := []

namespace Folder

def ofFiles (files : List (String × String)) : Folder where
  files := files.map fun f => ((Route.ofPath f.1.toList).filter fun n => !Route.isIdle n, f.2)

/-- What a route without dots leads to. The folders on the way to a file are there, too. -/
def entry? (f : Folder) (route : Route) : Option Entry :=
  match f.files.lookup route with
  | some text => some (.file text)
  | none =>
    if route = [] ∨ route ∈ f.folders ∨
      f.files.any fun p => route.isPrefixOf p.1 then some .folder
    else none

def maxNameWidth : Nat := 255

def maxPathWidth : Nat := 4095

/-- Follows names from the place `route` in a folder that lies in the folder `outer`. -/
def follow (outer f : Folder) (route : Route) : Route → Except ReadFailure Entry
  | [] => .ok .folder
  | name :: names =>
    if Route.isIdle name then follow outer f route names
    else if name = ['.', '.'] then
      if route = [] then follow outer outer [] names else follow outer f route.dropLast names
    else if maxNameWidth < width name then .error .nameTooLong
    else
      match f.entry? (route ++ [name]) with
      | none => .error .missing
      | some .folder => follow outer f (route ++ [name]) names
      | some (.file text) => if names = [] then .ok (.file text) else .error .notFolder

/-- The text at the end of a path; `root` is where a path with a leading slash starts. Nothing is
known to lie around the working folder. -/
def read (root working : Folder) (path : String) : Except ReadFailure String := do
  let names := Route.ofPath path.toList
  if path = "" then throw .missing
  if maxPathWidth < width path.toList then throw .nameTooLong
  let found ←
    if names.head? = some [] then follow root root [] names else follow {} working [] names
  match found with
  | .file text => return text
  | .folder => throw .isFolder

/-- What every machine has: its top folders, the empty device and the standard input. -/
def machine (input : String) : Folder :=
  let devices := ofFiles [("/dev/null", ""), ("/dev/stdin", input)]
  { devices with folders :=
    ["bin", "boot", "etc", "home", "lib", "media", "mnt", "opt", "proc", "root", "run",
      "sbin", "srv", "sys", "tmp", "usr", "var"].map fun name => [name.toList] }

end Folder

end SceneExpr.Command
