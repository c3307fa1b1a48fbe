import UrlRebase.SourceMap.Vlq

/-!
# Mappings

A mapping says that a generated position comes from a position of a source, or from
none.  The written form of a list of mappings separates lines by semicolons and the
segments of a line by commas.  A segment holds differences: of the generated column to
the segment before it on its line, and of the source, its line and column, and the name to
the last segment before it that has one.

A mapping that is read has a source, a line and a column of it, all three or none, and a
name only with these.  One that is made otherwise may lack any of them; without a source the
others do not count when it is written, and with one it has to have a line and a column.
-/

namespace UrlRebase

/-- A line and a column of a generated text. -/
structure Position where
  line : Int
  column : Int
deriving DecidableEq, Repr

namespace Position

def le (left right : Position) : Bool :=
  left.line < right.line || (left.line = right.line && left.column ≤ right.column)

end Position

/-- A generated position, the index of the source that it comes from, the line and column
there, and the index of its name. -/
structure Mapping where
  generated : Position
  source : Option Int := none
  line : Option Int := none
  column : Option Int := none
  name : Option Int := none
deriving DecidableEq, Repr

namespace Mapping

/-- Mappings in order of generated position; those at one position keep their order. -/
def sort (mappings : List Mapping) : List Mapping :=
  mappings.mergeSort fun left right => left.generated.le right.generated

/-- The source fields and the name of the last segments that had them. -/
structure Running where
  source : Int := 0
  line : Int := 0
  column : Int := 0
  name : Int := 0
deriving DecidableEq, Repr

/-- How many sources and names a map has. -/
structure Limits where
  sources : Nat
  names : Nat
deriving DecidableEq, Repr

def decodeOrigin (limits : Limits) (running : Running) (source line column : Int) :
    Except Malformed Running :=
  let source := running.source + source
  let line := running.line + line
  let column := running.column + column
  if source < 0 ∨ limits.sources ≤ source then .error (.sourceOutOfRange source)
  else if line < 0 ∨ column < 0 then .error .negativeOrigin
  else .ok { running with source, line, column }

def ofRunning (generated : Position) (running : Running) (name : Option Int) : Mapping where
  generated
  source := some running.source
  line := some running.line
  column := some running.column
  name

/-- Reads a segment of a line, behind a segment at the given column. -/
def decodeSegment (limits : Limits) (line : Nat) (column : Int) (running : Running)
    (segment : Text) : Except Malformed (Mapping × Running) := do
  let fields ← Vlq.decode segment
  let generated ←
    match fields with
    | [step] | [step, _, _, _] | [step, _, _, _, _] =>
        if column + step < 0 then .error (.negativeColumn line)
        else .ok (⟨line, column + step⟩ : Position)
    | _ => .error (.fieldCount segment fields.length)
  match fields with
  | [_, source, originLine, originColumn] => do
      let running ← decodeOrigin limits running source originLine originColumn
      .ok (ofRunning generated running none, running)
  | [_, source, originLine, originColumn, name] => do
      let running ← decodeOrigin limits running source originLine originColumn
      let name := running.name + name
      if name < 0 ∨ limits.names ≤ name then .error (.nameOutOfRange name)
      else .ok (ofRunning generated running (some name), { running with name })
  | _ => .ok ({ generated }, running)

/-- Reads the segments of a line; empty ones are passed over. -/
def decodeLine (limits : Limits) (line : Nat) (column : Int) (running : Running) :
    List Text → Except Malformed (List Mapping × Running)
  | [] => .ok ([], running)
  | segment :: rest =>
      if segment = [] then decodeLine limits line column running rest
      else
        match decodeSegment limits line column running segment with
        | .error error => .error error
        | .ok (mapping, running) =>
            match decodeLine limits line mapping.generated.column running rest with
            | .error error => .error error
            | .ok (others, running) => .ok (mapping :: others, running)

def decodeLines (limits : Limits) (line : Nat) (running : Running) :
    List Text → Except Malformed (List Mapping)
  | [] => .ok []
  | group :: rest =>
      match decodeLine limits line 0 running (Text.fields ',' group) with
      | .error error => .error error
      | .ok (mappings, running) =>
          match decodeLines limits (line + 1) running rest with
          | .error error => .error error
          | .ok others => .ok (mappings ++ others)

def decode (limits : Limits) (written : Text) : Except Malformed (List Mapping) :=
  decodeLines limits 0 {} (Text.fields ';' written)

/-- The fields of a mapping as differences, behind a segment at the given column. -/
def differences (column : Int) (running : Running) (mapping : Mapping) :
    Except SourceMap.WriteError (List Int × Running) :=
  let step := mapping.generated.column - column
  match mapping.source, mapping.line, mapping.column with
  | none, _, _ => .ok ([step], running)
  | some source, some line, some column =>
      let fields :=
        [step, source - running.source, line - running.line, column - running.column]
      let moved : Running := { running with source, line, column }
      match mapping.name with
      | none => .ok (fields, moved)
      | some name => .ok (fields ++ [name - running.name], { moved with name })
  | _, _, _ => .error .partialOrigin

/-- Lines of segments with a segment put at the head of the first one. -/
def prepend (segment : Text) : List (List Text) → List (List Text)
  | [] => [[segment]]
  | group :: groups => (segment :: group) :: groups

/-- The segments of sorted mappings line by line, from the given line and column on.  The
first list holds the segments that are left for the given line. -/
def segments (line : Nat) (column : Int) (running : Running) :
    List Mapping → Except SourceMap.WriteError (List (List Text))
  | [] => .ok [[]]
  | mapping :: rest =>
      if line < mapping.generated.line.toNat then
        (segments (line + 1) 0 running (mapping :: rest)).map ([] :: ·)
      else
        match differences column running mapping with
        | .error error => .error error
        | .ok (fields, running) =>
            (segments line mapping.generated.column running rest).map
              (prepend (Vlq.encode fields))
termination_by mappings =>
  (mappings.length, (mappings.head?.map fun m => m.generated.line.toNat - line).getD 0)
decreasing_by
  · simp only [List.head?_cons, Option.map_some, Option.getD_some]
    exact Prod.Lex.right _ (by omega)
  · exact Prod.Lex.left _ _ (by simp)

/-- Writes a list of mappings in order of generated position. -/
def encode (mappings : List Mapping) : Except SourceMap.WriteError Text :=
  let sorted := sort mappings
  if sorted.head?.any fun mapping => mapping.generated.line < 0 then .error .negativeLine
  else
    (segments 0 0 {} sorted).map fun lines =>
      Text.joined [';'] (lines.map (Text.joined [',']))

end Mapping

end UrlRebase
