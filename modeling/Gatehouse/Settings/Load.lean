import Gatehouse.Failure
import Gatehouse.Settings.Environment
import Gatehouse.Settings.Wire
import Gatehouse.Toml.Document

/-! Loading a configuration.

A configuration is read from layers: the defaults below, one file over the other, and
the environment above. What loads has no defect (`check_of_load`). -/
namespace Gatehouse

namespace Config
open Settings

/-- The settings that hold where no layer says anything. -/
def defaultLayer : Tree := Tree.ofJson (codec.encode {})

/-- The configuration that a tree of settings describes, with defects or without. -/
def ofTree (tree : Tree) : Except LoadProblem Config :=
  match codec.read .layered Json.Codec.levels tree.toDraft with
  | .ok config => .ok config
  | .error (.mismatch kind path) => .error (.mismatch kind path)
  | .error .malformed => .error (.unreadable "malformed settings")
  | .error .truncated => .error (.unreadable "incomplete settings")

/-- The layers of files, each laid over those before it. -/
def overlayFiles (tree : Tree) : List String → Except LoadProblem Tree
  | [] => .ok tree
  | text :: rest =>
    match Toml.document? text with
    | some layer => overlayFiles (tree.overlay layer) rest
    | none => .error (.unreadable "TOML parse error")

/-- What files, the strongest last, and environment variables, which are stronger
still, say together; it may have defects. -/
def ofLayers (files : List String) (env : List (String × String)) :
    Except LoadProblem Config := do
  let tree ← overlayFiles defaultLayer files
  ofTree (tree.overlay (ofEnvironment env))

/-- Loads a configuration from files and environment variables. -/
def load (files : List String) (env : List (String × String)) : Except Failure Config :=
  match ofLayers files env with
  | .error problem => .error (.configuration problem)
  | .ok config =>
    match config.check with
    | .error defect => .error (.invalidConfiguration defect.message)
    | .ok _ => .ok config

/-- What loads has no defect. -/
theorem check_of_load {files : List String} {env : List (String × String)} {c : Config}
    (h : load files env = .ok c) : c.check = .ok () := by
  unfold load at h
  split at h
  · cases h
  · split at h
    · cases h
    · rename_i hc
      cases h
      exact hc

end Config

end Gatehouse
