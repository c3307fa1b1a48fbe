import UrlRebase.Failure

/-!
# Tools

Compiling and minifying style sheets is the work of other programs.  A toolchain holds them
as functions, and besides them the processors that others supply.
-/

namespace UrlRebase

/-- A compilation of a style sheet from its file, with the names that go into its map. -/
structure FileCompilation where
  path : Text
  mapName : Text
  outputName : Text
  includes : List Text
deriving DecidableEq, Repr

namespace FileCompilation

def includeLine (includes : List Text) : Text :=
  Text.joined [':'] includes

/-- The compilation as the log shows it.  The map holds the contents of the sources, and
the style sheet does not name its map. -/
def command (compilation : FileCompilation) : Text :=
  compilation.path ++ " map=".text ++ compilation.mapName ++
    " hint=".text ++ compilation.outputName ++
    " include=".text ++ includeLine compilation.includes ++ " contents=1 omit=1".text

end FileCompilation

/-- A compiled style sheet and its source map. -/
structure Compiled where
  text : Text
  map : Option SourceMap.Given

/-- A processor that is supplied from outside: from the name of an input, its text and its
source map it makes another text, which has no source map, or it fails. -/
abbrev ExternalProcessor : Type :=
  Text → Text → Option SourceMap.Given → Except Failure Text

/-- The programs that style sheets are processed with. -/
structure Toolchain where
  /-- Compiles a file; nothing if it cannot be compiled. -/
  compileFile : FileCompilation → Option Compiled
  /-- Compiles a text that was read from a file in one of two syntaxes. -/
  compileText : List Text → Bool → Text → Text
  minify : Text → Text
  /-- The processors of other modules, by module and name. -/
  modules : List (Text × List (Text × ExternalProcessor)) := []

namespace Toolchain

/-- The toolchain without a compiler.  Compilations from files are looked up in a table of
compiled style sheets; a text is passed on behind a comment that says how it would have
been compiled.  Minifying drops the line breaks. -/
def ofTable (table : List (Text × Compiled)) : Toolchain where
  compileFile compilation := table.lookup compilation.path
  compileText includes indented text :=
    "/*sass indented=".text ++ (if indented then "true" else "false").text ++
      " include=".text ++ FileCompilation.includeLine includes ++ "*/\n".text ++ text
  minify text := text.filter (· ≠ .char '\n')

end Toolchain

end UrlRebase
