import UrlRebase.FileSystem.Glob
import UrlRebase.Workspace

/-!
# Inputs

An input of an asset is a file with the processors that it goes through and the patterns of
the files that it depends on, which are relative to its own directory.  An input is newer
than a time if its file or one of these files is.
-/

namespace UrlRebase

/-- A file to pack. -/
structure Input where
  /-- The name that the configuration gives the file. -/
  name : Text
  path : Text
  /-- The registrations of the processors, in the order in which they run. -/
  processors : List Setting
  /-- The patterns of the files that the input depends on, as configured. -/
  depends : Setting

namespace Input

/-- The files that an element of the dependencies means, or the fault in it. -/
def dependencyPaths (files : FileSystem) (directory : Text) :
    Setting → List (Except Failure Text)
  | .text pattern => (files.glob (Path.join directory pattern)).map .ok
  | _ => [.error .wrongKind]

/-- The files whose times matter, the input's own first, up to a fault in the dependencies. -/
def watchedPaths (files : FileSystem) (input : Input) : List (Except Failure Text) :=
  .ok input.path ::
    match input.depends.elements? with
    | none => [.error .wrongKind]
    | some patterns => patterns.flatMap (dependencyPaths files (Path.dirname input.path))

/-- Whether one of some paths was changed after a time.  Later paths do not matter. -/
def anyNewer (files : FileSystem) (time : Int) : List (Except Failure Text) → Except Failure Bool
  | [] => .ok false
  | .error error :: _ => .error error
  | .ok path :: rest =>
      match files.timeOf path with
      | .error error => .error (.file error)
      | .ok changed => if time < changed then .ok true else anyNewer files time rest

/-- Whether an input or a file that it depends on was changed after a time. -/
def isNewer (files : FileSystem) (time : Int) (input : Input) : Except Failure Bool :=
  anyNewer files time (input.watchedPaths files)

/-- Whether one of some inputs was changed after a time.  Later inputs do not matter. -/
def anyIsNewer (files : FileSystem) (time : Int) : List Input → Except Failure Bool
  | [] => .ok false
  | input :: rest => do
      if ← input.isNewer files time then return true else anyIsNewer files time rest

end Input

end UrlRebase
