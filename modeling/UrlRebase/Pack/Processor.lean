import UrlRebase.Pack.Toolchain

/-!
# Processors

The steps that an input goes through.  A configuration names processors by short names, and
registers a short name for the module and the name of a processor.
-/

namespace UrlRebase

/-- A step that an input goes through. -/
inductive Processor where
  | minify
  /-- Rebases the references. -/
  | rebase
  | compile
  | external (run : ExternalProcessor)

namespace Processor

/-- The processors that are there without being registered, by short names. -/
def builtin : List (Text × Processor) :=
  [("cssmin".text, .minify), ("rewrite".text, .rebase), ("sass".text, .compile)]

def builtinPackage : Text := "cssrebase.processors".text

def builtinModule (name : Text) : Text :=
  builtinPackage ++ ".".text ++ name

def builtinMember : Text := "process".text

def registrations : Setting.Members :=
  builtin.map fun (name, _) =>
    (.text name, .text (builtinModule name ++ ".".text ++ builtinMember))

/-- All modules with their members, some of which are no processors.  A module can be listed
more than once. -/
def modules (tools : Toolchain) : List (Text × List (Text × Option Processor)) :=
  (builtinPackage, builtin.map fun (name, _) => (name, none)) ::
    (builtin.map fun (name, processor) =>
      (builtinModule name, [(builtinMember, some processor)])) ++
    tools.modules.map fun (name, members) =>
      (name, members.map fun (member, run) => (member, some (.external run)))

/-- The member of a module, which has to be a processor; a member that is listed first wins. -/
def findMember (tools : Toolchain) (name member : Text) : Except Failure Processor :=
  match (modules tools).filter fun entry => entry.1 = name with
  | [] => .error .missingModule
  | found =>
      match (found.flatMap Prod.snd).lookup member with
      | none => .error .missingProcessor
      | some none => .error .wrongKind
      | some (some processor) => .ok processor

def find (tools : Toolchain) : Setting → Except Failure Processor
  | .text path =>
      match Text.cutLast? '.' path with
      | none => .error .unqualifiedProcessor
      | some ([], _) => .error .unnamedModule
      | some ('.' :: _, _) => .error .wrongKind
      | some (name, member) => findMember tools name member
  | .bytes _ => .error .wrongKind
  | _ => .error .missingProcessor

end Processor

end UrlRebase
