import UrlRebase.FileSystem.Basic

/-!
# Wildcards

A pattern matches paths segment by segment.  In a segment `*` stands for any characters,
`?` for one, and brackets for one character of a set, or not of it behind `!`.  A name
that starts with a dot is matched only by a pattern that does.

`FileSystem.glob` finds the paths that a pattern matches; without wildcards that is the
pattern itself, if there is something at it.
-/

namespace UrlRebase.Glob

/-- One element of a pattern. -/
inductive Item where
  | star
  | any
  | literal (c : CodePoint)
  /-- A character in one of the ranges, or in none of them. -/
  | set (negated : Bool) (ranges : List (CodePoint × CodePoint))
deriving DecidableEq, Repr

/-- The inside of brackets cut at the hyphens that make ranges.  A hyphen makes one if there
is something before it, at least the given number of characters, and two at least between it
and the one before. -/
def chunks (least : Nat) (body : Text) : List Text :=
  match h : (body.drop least).dropWhile (· ≠ .char '-') with
  | [] => [body]
  | _ :: rest => body.take (body.length - rest.length - 1) :: chunks 2 rest
termination_by body.length
decreasing_by
  have := (List.dropWhile_suffix (· ≠ .char '-') (l := body.drop least)).length_le
  rw [h, List.length_drop, List.length_cons] at this
  omega

/-- Chunks whose last one is not empty: a hyphen at the end makes no range. -/
def closed : List Text → List Text
  | [chunk, []] => [chunk ++ "-".text]
  | chunk :: rest => chunk :: closed rest
  | [] => []

/-- Chunks without the ranges that are empty because their bounds are the wrong way round. -/
def nonempty : List Text → List Text
  | [] => []
  | chunk :: rest =>
      match chunk.getLast?, nonempty rest with
      | some low, (high :: behind) :: others =>
          if high.toNat < low.toNat then (chunk.dropLast ++ behind) :: others
          else chunk :: (high :: behind) :: others
      | _, others => chunk :: others

/-- The ranges that chunks spell: one between each two, and the other characters. -/
def ranges : List Text → List (CodePoint × CodePoint)
  | [] => []
  | [chunk] => chunk.map fun c => (c, c)
  | chunk :: next :: rest =>
      (chunk.dropLast.map fun c => (c, c)) ++
        (match chunk.getLast?, next.head? with
          | some low, some high => [(low, high)]
          | _, _ => []) ++ ranges (next.tail :: rest)
termination_by chunks => chunks.length

/-- The set that the inside of brackets spells.  An exclamation mark counts at the head of
what is left without empty ranges; if it is alone there before a range, the hyphen is a
character of the set. -/
def setOf (body : Text) : Item :=
  match nonempty (closed (chunks (if body.head? = some (.char '!') then 2 else 1) body)) with
  | [['!']] => .any
  | ['!'] :: rest => .set true (('-', '-') :: ranges rest)
  | ('!' :: first) :: rest => .set true (ranges (first :: rest))
  | chunks => .set false (ranges chunks)

/-- The inside of a set up to its closing bracket, and the rest.  A bracket that comes
first belongs to the set. -/
def bracket? (text : Text) : Option (Text × Text) :=
  let (mark, body) :=
    match text with
    | '!' :: rest => ("!".text, rest)
    | _ => ([], text)
  let (first, rest) :=
    match body with
    | ']' :: rest => ("]".text, rest)
    | _ => ([], body)
  match rest.dropWhile (· ≠ .char ']') with
  | [] => none
  | _ :: behind => some (mark ++ first ++ rest.takeWhile (· ≠ .char ']'), behind)

/-- The elements of a pattern; an opening bracket that is not closed is itself. -/
def items : Nat → Text → List Item
  | 0, _ => []
  | _, [] => []
  | length + 1, '*' :: rest => .star :: items length rest
  | length + 1, '?' :: rest => .any :: items length rest
  | length + 1, '[' :: rest =>
      match bracket? rest with
      | none => .literal '[' :: items length rest
      | some (body, behind) => setOf body :: items length behind
  | length + 1, c :: rest => .literal c :: items length rest

def Item.takes (item : Item) (c : CodePoint) : Bool :=
  match item with
  | .star | .any => true
  | .literal other => c = other
  | .set negated ranges =>
      negated != ranges.any fun (low, high) => low.toNat ≤ c.toNat && c.toNat ≤ high.toNat

def matchesAll : List Item → Text → Bool
  | [], [] => true
  | [], _ :: _ => false
  | .star :: rest, [] => matchesAll rest []
  | .star :: rest, c :: name => matchesAll rest (c :: name) || matchesAll (.star :: rest) name
  | _ :: _, [] => false
  | item :: rest, c :: name => item.takes c && matchesAll rest name
termination_by items name => items.length + name.length

def isHidden (name : Text) : Bool :=
  name.head? = some (.char '.')

def matchesName (pattern name : Text) : Bool :=
  (isHidden pattern || !isHidden name) && matchesAll (items pattern.length pattern) name

def hasWildcard (text : Text) : Bool :=
  text.any fun c => c = '*' || c = '?' || c = '['

/-- Splits a path into the directory as written and the last segment. -/
def split (path : Text) : Text × Text :=
  (Path.dirname path, Path.basename path)

end UrlRebase.Glob

namespace UrlRebase.FileSystem

open Glob

/-- The names in a directory that a segment of a pattern matches, only directories if so
asked.  A segment without wildcards matches if it is there. -/
def globNames (fs : FileSystem) (onlyDirectories : Bool) (directory pattern : Text) :
    List Text :=
  if hasWildcard pattern then
    ((fs.list directory).filter fun name =>
      matchesName pattern name &&
        (!onlyDirectories || fs.isDirectory (Path.join directory name))).eraseDups
  else if pattern = [] then
    if fs.isDirectory directory then [[]] else []
  else if fs.exists? (Path.join directory pattern) then [pattern]
  else []

/-- The paths that match a pattern of at most the given number of segments. -/
def globWithin (fs : FileSystem) (onlyDirectories : Bool) : Nat → Text → List Text
  | 0, _ => []
  | depth + 1, pattern =>
      let (directory, name) := split pattern
      if !hasWildcard pattern then
        let found := if name = [] then fs.isDirectory directory else fs.exists? pattern
        if found then [pattern] else []
      else if directory = [] then
        fs.globNames onlyDirectories [] name
      else
        let directories :=
          if directory ≠ pattern ∧ hasWildcard directory then
            fs.globWithin true depth directory
          else [directory]
        directories.flatMap fun directory =>
          (fs.globNames onlyDirectories directory name).map (Path.join directory)

/-- The paths that match a pattern.  The empty pattern matches none. -/
def glob (fs : FileSystem) (pattern : Text) : List Text :=
  (fs.globWithin false (pattern.length + 1) pattern).filter fun _ => pattern ≠ []

end UrlRebase.FileSystem
