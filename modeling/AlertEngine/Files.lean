import AlertEngine.Text.Basic

/-!
# Files

* `Files`: contents by path; a path without contents cannot be read.
* `Files.locate?`: where a path leads to, name by name.
* `Files.ofEntries`: the files of one directory, found by their paths from there.
-/

namespace AlertEngine

abbrev Files := String → Option String

namespace Files

def names (path : String) : List String := (Text.splitOn '/' path.toList).map String.ofList

/-- The place of the file that a path leads to, as the names that lead there, the last one first.
The path goes on from the directory at `place`. No name and a dot stay where they are, two dots go
back, and any other name but the last has to be that of a directory. A path that leads out of the
first directory, or ends in a directory, leads to no file. -/
def locate? (isDirectory : List String → Bool) (place : List String) :
    List String → Option (List String)
  | [] => none
  | name :: rest =>
    if name = "" ∨ name = "." then locate? isDirectory place rest
    else if name = ".." then
      match place with
      | [] => none
      | _ :: place => locate? isDirectory place rest
    else if rest.isEmpty then some (name :: place)
    else if isDirectory (name :: place) then locate? isDirectory (name :: place) rest
    else none

def locateFrom? (isDirectory : List String → Bool) (path : String) : Option (List String) :=
  if path.startsWith "/" then none else locate? isDirectory [] (names path)

def ofEntries (entries : List (String × String)) : Files := fun path =>
  let files := entries.filterMap fun e => (locateFrom? (fun _ => true) e.1).map fun p => (p, e.2)
  let isDirectory (place : List String) := files.any fun f => f.1 != place && place.isSuffixOf f.1
  (locateFrom? isDirectory path).bind fun place => files.reverse.lookup place

end Files

end AlertEngine
