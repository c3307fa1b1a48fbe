import UrlRebase.SourceMap.Concat

/-!
# Lineages

The lineage of a text says where its positions come from: it is the map of whatever
produced the text, and the name of the text as a source.  The mapping that counts for a
position is the last one at or before it, on whatever line.  Where there is no such
mapping, or it has no source, the origin is the position itself, in the text's own source
and marked as not mapped.  Without a map every position is its own origin.
-/

namespace UrlRebase

/-- Where a position comes from. -/
structure Origin where
  source : Text
  line : Option Int
  column : Option Int
  /-- The index of the source in the map, if the map gave it. -/
  sourceIndex : Option Int := none
  name : Option Int := none
  /-- Whether the position has an origin other than for want of a mapping. -/
  mapped : Bool := true
deriving DecidableEq, Repr

/-- A text's map, if it has one, and the name of the text as a source. -/
structure Lineage where
  map : Option SourceMap
  source : Text

namespace Lineage

/-- The last of sorted mappings at or before a position. -/
def nearest? (mappings : List Mapping) (position : Position) : Option Mapping :=
  (mappings.takeWhile (·.generated.le position)).getLast?

/-- The mapping that counts for a position. -/
def mappingAt? (lineage : Lineage) (position : Position) : Option Mapping :=
  lineage.map.bind fun map => nearest? map.mappings position

/-- The position itself as its origin. -/
def here (lineage : Lineage) (position : Position) (mapped : Bool) : Origin :=
  { source := lineage.source
    line := some position.line
    column := some position.column
    mapped }

def origin (lineage : Lineage) (position : Position) : Except SourceMap.UseError Origin :=
  match lineage.map with
  | none => .ok (lineage.here position true)
  | some map =>
      match nearest? map.mappings position with
      | none => .ok (lineage.here position false)
      | some mapping =>
          match mapping.source with
          | none => .ok (lineage.here position false)
          | some index =>
              match SourceMap.entry? map.sources index with
              | none => .error .indexOutOfRange
              | some source =>
                  .ok
                    { source
                      line := mapping.line
                      column := mapping.column
                      sourceIndex := some index
                      name := mapping.name }

end Lineage

end UrlRebase
