import UrlRebase.Yaml.Tag

/-!
# Documents as graphs

A document is a graph of nodes.  A node that is used by its name has one place in the graph
and several ways to it, and a way may lead from a node back to itself.
-/

namespace UrlRebase.Yaml

/-- The place of a node in a graph. -/
abbrev NodeId := Nat

/-- What a node holds. -/
inductive Content where
  | scalar (text : Text)
  | sequence (items : List NodeId)
  | mapping (members : List (NodeId × NodeId))
deriving DecidableEq, Repr, Inhabited

/-- A node. -/
structure Node where
  tag : Tag
  content : Content
deriving DecidableEq, Repr

/-- The nodes of a document by their places. -/
abbrev Graph := Array Node

namespace Graph

/-- The node at a place; there is none at a place outside the graph. -/
def node? (graph : Graph) (id : NodeId) : Option Node :=
  graph[id]?

def tagAt (graph : Graph) (id : NodeId) : Tag :=
  ((graph.node? id).map Node.tag).getD .unknown

def setTag (graph : Graph) (id : NodeId) (tag : Tag) : Graph :=
  graph.modify id fun node => { node with tag }

def setContent (graph : Graph) (id : NodeId) (content : Content) : Graph :=
  graph.modify id fun node => { node with content }

end Graph

/-- A document: its nodes, and the place of the node that holds all others. -/
structure Document where
  graph : Graph
  root : NodeId

end UrlRebase.Yaml
