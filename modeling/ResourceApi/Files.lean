import ResourceApi.Entries
import ResourceApi.FilePath

/-!
# Files

Access to files in any monad, and a tree of files held as a value.
-/

namespace ResourceApi

/-- Why a file cannot be read or written. -/
inductive FileFault where
  | missing
  | present
  | notDirectory
  | isDirectory
  | other (text : String)
deriving DecidableEq, Repr

def FileFault.message : FileFault → String
  | .missing => "No such file or directory (os error 2)"
  | .present => "File exists (os error 17)"
  | .notDirectory => "Not a directory (os error 20)"
  | .isDirectory => "Is a directory (os error 21)"
  | .other text => text

/-- Reading a file, making a directory with those above it, and writing a file. -/
structure FileAccess (m : Type → Type) where
  read : String → m (Except FileFault String)
  createDirectory : String → m (Except FileFault Unit)
  write : String → String → m (Except FileFault Unit)

/-- The contents of files by path. -/
abbrev FileTree := Entries String

namespace FileTree

/-- Some file stands in the place of a directory on the way to `target`. -/
def blocks (tree : FileTree) (target : List String) : Bool :=
  tree.keys.any fun path ↦
    let parts := FilePath.resolved path
    parts.length < target.length && parts.isPrefixOf target

/-- Some file lies below `target`, or it is the directory of the tree. -/
def isDirectory (tree : FileTree) (target : List String) : Bool :=
  target.isEmpty || tree.keys.any fun path ↦
    let parts := FilePath.resolved path
    target.length < parts.length && target.isPrefixOf parts

def text? (tree : FileTree) (target : List String) : Option String :=
  (List.find? (fun (path, _) ↦ FilePath.resolved path == target) tree).map Prod.snd

def read (tree : FileTree) (path : String) : Except FileFault String :=
  let target := FilePath.resolved path
  if path.isEmpty then .error .missing
  else match tree.text? target with
    | some text => .ok text
    | none =>
      if tree.blocks target then .error .notDirectory
      else if tree.isDirectory target then .error .isDirectory
      else .error .missing

/-- A directory can be made unless a file stands in its place. -/
def createDirectory (tree : FileTree) (path : String) : Except FileFault Unit :=
  let target := FilePath.resolved path
  if (tree.text? target).isSome then .error .present
  else if tree.blocks target then .error .notDirectory
  else .ok ()

/-- The tree with a file; its path is written without detours. -/
def write (tree : FileTree) (path text : String) : Except FileFault FileTree :=
  let target := FilePath.resolved path
  if path.isEmpty then .error .missing
  else if tree.blocks target then .error .notDirectory
  else if tree.isDirectory target then .error .isDirectory
  else .ok (Entries.put ("/".intercalate target) text tree)

/-- Access to a tree as a state. -/
def access : FileAccess (StateM FileTree) where
  read path := return (← get).read path
  createDirectory path := return (← get).createDirectory path
  write path text := do
    match (← get).write path text with
    | .ok tree => set tree; return .ok ()
    | .error fault => return .error fault

end FileTree
end ResourceApi
