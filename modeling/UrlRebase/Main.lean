import UrlRebase.CommandLine.Program

/-!
# The command line

Reads the files below the current directory, runs the program on them, and writes back what
it wrote.  Style sheets are not compiled here: the toolchain has no compiler.
-/

namespace UrlRebase.CommandLine

/-- Adds the file or the directory of an entry to the files.  Links to directories are not
followed. -/
partial def readEntry (files : FileSystem) (entry : IO.FS.DirEntry) : IO FileSystem := do
  let path := entry.path.toString.text
  let link ← entry.path.symlinkMetadata
  match link.type with
  | .dir => (← entry.path.readDir).foldlM readEntry (files.makeDirectories path)
  | _ =>
      let modified := (← entry.path.metadata).modified
      let time := modified.sec * 1000000000 + modified.nsec.toNat
      return files.place path { bytes := ← IO.FS.readBinFile entry.path, time }

/-- The files below the current directory.  The clock is at the latest of their times. -/
def readFiles : IO FileSystem := do
  let current ← IO.currentDir
  let empty := FileSystem.empty current.toString.text
  let files ← (← current.readDir).foldlM readEntry (empty.makeDirectories empty.current)
  let clock := files.files.foldl (fun latest entry => max latest entry.2.time) files.clock
  return { files with clock }

def writeFiles (workspace : Workspace) : IO Unit :=
  workspace.written.eraseDups.forM fun path =>
    match workspace.files.file? path with
    | none => pure ()
    | some file => do
        IO.FS.createDirAll (Path.dirname path).string
        IO.FS.writeBinFile path.string file.bytes

def levelName : LogLevel → String
  | .debug => "DEBUG"
  | .warning => "WARNING"
  | .error => "ERROR"
  | .command => "COMMAND"

def isShown (isDebugging : Bool) : LogLevel → Bool
  | .debug | .command => isDebugging
  | .warning | .error => true

def showLog (isDebugging : Bool) (log : List LogEntry) : IO Unit :=
  (log.filter fun entry => isShown isDebugging entry.level).forM fun entry =>
    IO.eprintln (levelName entry.level ++ " " ++ entry.message.string)

end UrlRebase.CommandLine

open UrlRebase UrlRebase.CommandLine in
def main (arguments : List String) : IO UInt32 := do
  let texts := arguments.map String.text
  let workspace : Workspace := { files := ← readFiles }
  let (outcome, workspace) := (run (.ofTable []) texts).run.run workspace
  writeFiles workspace
  showLog (texts.contains "--debug".text) workspace.log
  match outcome with
  | .ok outcome =>
      IO.print outcome.output.string
      IO.eprint outcome.complaint.string
      return outcome.code.toUInt32
  | .error failure =>
      IO.eprintln failure.message.string
      return 1
