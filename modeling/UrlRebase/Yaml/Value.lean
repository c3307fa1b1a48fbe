import UrlRebase.Setting.Order
import UrlRebase.Setting.Table
import UrlRebase.Text.Base64
import UrlRebase.Yaml.Document
import UrlRebase.Yaml.Number

/-!
# From a document to a value

First all nodes are surveyed, each once and level by level, so that of several faults the one
that is nearest to the root comes first: scalars get their values, and mappings take over the
members of those that they merge.  Then the value is built from the root.
-/

namespace UrlRebase.Yaml

namespace Scalar

def truthValues : List (Text × Bool) :=
  [("yes", true), ("no", false), ("true", true), ("false", false), ("on", true),
    ("off", false)].map fun (word, value) => (word.text, value)

def timestamp (mark : Mark) (text : Text) : Except Fault Setting :=
  match Timestamp.ofText? (Tag.dropLastBreak text) with
  | none => .error .moment
  | some stamp =>
      match stamp.time with
      | none => (stamp.date.map (Setting.date mark)).mapError .calendar
      | some time => ((stamp.moment time).map (Setting.moment mark)).mapError .calendar

def bytes (text : Text) : Except Fault Setting :=
  if text.all fun c => c.toNat < 0x80 then
    match Base64.decode? text with
    | none => .error .kind
    | some bytes => .ok (.bytes bytes)
  else .error .kind

def value (mark : Mark) (tag : Tag) (text : Text) : Except Fault Setting :=
  match tag with
  | .null => .ok .null
  | .bool =>
      match truthValues.lookup (Text.lower text) with
      | none => .error .truthValue
      | some value => .ok (.bool value)
  | .int => (Number.integer text).map .int
  | .double => (Number.double text).map .double
  | .string => .ok (.text text)
  | .bytes => bytes text
  | .timestamp => timestamp mark text
  | _ => .error .kind

end Scalar

def Tag.isCollection (tag : Tag) : Bool :=
  tag = .sequence || tag = .mapping || tag = .set || tag = .pairs

/-- What is known in the middle of a survey. -/
structure Survey where
  graph : Graph
  /-- The values of scalars. -/
  values : List (NodeId × Setting) := []
  /-- The nodes that were met. -/
  met : List NodeId := []
  /-- The nodes with others that are still to be looked into. -/
  queue : List NodeId := []

/-- A computation in the middle of a survey. -/
abbrev Surveying : Type → Type :=
  StateT Survey (Except Fault)

namespace Surveying

def contentOf (id : NodeId) : Surveying Content := do
  match (← get).graph.node? id with
  | some node => return node.content
  | none => throw .kind

def change (edit : Graph → Graph) : Surveying Unit :=
  modify fun survey => { survey with graph := edit survey.graph }

/-- The text of a scalar, or of the value that stands for a mapping.  The bound is on the
mappings inside each other. -/
def scalarText : Nat → NodeId → Surveying Text
  | 0, _ => throw .tooDeep
  | bound + 1, id => do
      match ← contentOf id with
      | .scalar text => return text
      | .sequence _ => throw .kind
      | .mapping members =>
          let graph := (← get).graph
          match members.find? fun member => graph.tagAt member.1 = .value with
          | none => throw .kind
          | some member => scalarText bound member.2

/-- Looks at a node when it is met first. -/
def meet (id : NodeId) : Surveying Unit := do
  let survey ← get
  if survey.met.contains id then return
  set { survey with met := id :: survey.met }
  let tag := survey.graph.tagAt id
  if tag.isCollection then
    modify fun survey => { survey with queue := survey.queue ++ [id] }
  else if tag = .merge ∨ tag = .value ∨ tag = .unknown then throw .kind
  else
    let text ← scalarText (survey.graph.size + 1) id
    let value ← (Scalar.value (some id) tag text : Except Fault Setting)
    modify fun survey => { survey with values := (id, value) :: survey.values }

mutual

/-- Lets a mapping take over the members of those that it merges, before its own.  The bound
is on the number of calls inside each other. -/
def flatten : Nat → NodeId → Surveying Unit
  | 0, _ => throw .tooDeep
  | bound + 1, id => do
      let taken ← takeMerged bound id
      let .mapping own ← contentOf id | return
      let graph := (← get).graph
      let keys := (own.map Prod.fst).filter fun key => graph.tagAt key = .value
      change fun graph => keys.foldl (fun graph key => graph.setTag key .string) graph
      change fun graph => graph.setContent id (.mapping (taken ++ own))

/-- Takes the merges out of a mapping one after the other: the members that they give. -/
def takeMerged : Nat → NodeId → Surveying (List (NodeId × NodeId))
  | 0, _ => throw .tooDeep
  | bound + 1, id => do
      let .mapping members ← contentOf id | return []
      let graph := (← get).graph
      let isOwn (member : NodeId × NodeId) : Bool := graph.tagAt member.1 ≠ .merge
      match members.dropWhile isOwn with
      | [] => return []
      | merge :: rest =>
          change fun graph => graph.setContent id (.mapping (members.takeWhile isOwn ++ rest))
          let part ← mergedMembers bound merge.2
          return part ++ (← takeMerged bound id)

/-- The members of a mapping, or of the mappings of a list, the last of which come first. -/
def mergedMembers : Nat → NodeId → Surveying (List (NodeId × NodeId))
  | 0, _ => throw .tooDeep
  | bound + 1, id => do
      match ← contentOf id with
      | .scalar _ => throw .kind
      | .mapping _ => membersOf bound id
      | .sequence items =>
          let parts ← items.mapM (membersOf bound)
          return parts.reverse.flatten

def membersOf : Nat → NodeId → Surveying (List (NodeId × NodeId))
  | 0, _ => throw .tooDeep
  | bound + 1, id => do
      let .mapping _ ← contentOf id | throw .kind
      flatten bound id
      let .mapping members ← contentOf id | throw .kind
      return members

end

def meetMember (member : NodeId × NodeId) : Surveying Unit := do
  meet member.1
  if ((← get).graph.tagAt member.1).isCollection then throw .kind
  meet member.2

/-- Meets the key and the value of the only member of a mapping in a list of pairs. -/
def meetPair (id : NodeId) : Surveying Unit := do
  match ← contentOf id with
  | .mapping [(key, value)] => do
      meet key
      meet value
  | _ => throw .kind

def expand (id : NodeId) : Surveying Unit := do
  let graph := (← get).graph
  match graph.tagAt id, ← contentOf id with
  | .sequence, .sequence items => items.forM meet
  | .pairs, .sequence items => items.forM meetPair
  | .mapping, .mapping _ | .set, .mapping _ =>
      flatten (4 * graph.size + 4) id
      let .mapping members ← contentOf id | throw .kind
      members.forM meetMember
  | _, _ => throw .kind

/-- Looks into the nodes of the queue one after the other.  The bound is on their number. -/
def expandAll : Nat → Surveying Unit
  | 0 => pure ()
  | bound + 1 => do
      let survey ← get
      match survey.queue with
      | [] => return ()
      | id :: queue =>
          set { survey with queue }
          expand id
          expandAll bound

def all (root : NodeId) : Surveying Unit := do
  meet root
  expandAll ((← get).graph.size + 1)

end Surveying

namespace Survey

mutual

/-- The value of a node inside others.  The bound is on the nodes inside each other. -/
def valueOf (survey : Survey) : Nat → List NodeId → NodeId → Setting
  | 0, _, _ => .null
  | bound + 1, outer, id =>
      match survey.values.lookup id, survey.graph.node? id with
      | some value, _ => value
      | none, none => .null
      | none, some node =>
          if outer.contains id then .loop id
          else
            let inside := valueOf survey bound (id :: outer)
            match node.content with
            | .scalar _ => .null
            | .sequence items =>
                let item := if node.tag = .pairs then pairOf survey bound (id :: outer) else inside
                .list (some id) (items.map item)
            | .mapping members =>
                let members := Setting.Members.ofAssignments
                  (members.map fun (key, value) => (inside key, inside value))
                if node.tag = .set then .set (some id) (Setting.setOrder (members.map Prod.fst))
                else .table (some id) members

/-- The pair that the only member of a mapping makes. -/
def pairOf (survey : Survey) : Nat → List NodeId → NodeId → Setting
  | 0, _, _ => .null
  | bound + 1, outer, id =>
      match (survey.graph.node? id).map Node.content with
      | some (.mapping ((key, value) :: _)) =>
          .pair (valueOf survey bound outer key) (valueOf survey bound outer value)
      | _ => .null

end

end Survey

namespace Document

def value (document : Document) : Except Fault Setting := do
  let ((), survey) ← (Surveying.all document.root).run { graph := document.graph }
  return survey.valueOf (2 * survey.graph.size + 2) [] document.root

end Document

/-- The value that a text spells, which is read in chunks of some characters; null if it says
nothing. -/
def parseChunks (size : Nat) (text : Text) : Except Fault Setting := do
  match ← Document.ofReadable (.ofText size text) with
  | none => return .null
  | some document => document.value

/-- The value that a configuration file spells; null if it says nothing. -/
def parse (text : Text) : Except Fault Setting :=
  parseChunks Readable.chunkSize text

end UrlRebase.Yaml
