import MergeCost.Scenario.Json

/-!
Scenarios in files. A folder is what a program can see of a file system: the texts of its files by
their paths. Folders on the way to a file come into being with it.
-/

namespace MergeCost

structure Folder where
  files : List (List String × String)
deriving Repr

namespace Folder

def empty : Folder := ⟨[]⟩

def read? (folder : Folder) (path : List String) : Option String := folder.files.lookup path

/-- Whether a path leads through a file, or is itself a folder. -/
def isBlocked (folder : Folder) (path : List String) : Bool :=
  folder.files.any fun (other, _) =>
    other ≠ path && (other.isPrefixOf path || path.isPrefixOf other)

def write? (folder : Folder) (path : List String) (text : String) : Option Folder :=
  if folder.isBlocked path then none
  else some ⟨(path, text) :: folder.files.filter fun (other, _) => other ≠ path⟩

theorem read?_write? {folder after : Folder} {path : List String} {text : String}
    (written : folder.write? path text = some after) : after.read? path = some text := by
  simp only [write?] at written
  split at written
  · contradiction
  · simp only [Option.some.injEq] at written
    subst after
    simp [read?]

end Folder

namespace Scenario

def fileText (scenario : Scenario Float) : String := scenario.toJson.pretty

def load (folder : Folder) (path : List String) : Except (Error Float) (Scenario Float) :=
  match folder.read? path with
  | none => .error .io
  | some text => parse text

def save (scenario : Scenario Float) (folder : Folder) (path : List String) :
    Except (Error Float) Folder :=
  match folder.write? path scenario.fileText with
  | none => .error .io
  | some after => .ok after

end Scenario

end MergeCost
