import Fairy.Lib.Dict
import Fairy.Lib.Run
import Fairy.Workspace.Models
import Mathlib.Logic.Function.Basic
import Mathlib.Order.Notation

namespace Fairy.Workspace.Purge

open Fairy.Lib

/-- The regular files of a directory with their lengths. -/
abbrev SizedTree := Dict (List String) Nat

inductive Label
  | project | scratch
  deriving DecidableEq

/-- What the directories of a workspace hold: its two roots, and the directory in
`.purge-staging` with its own two entries. -/
structure Site where
  roots : Label → Option SizedTree
  staging : Option (Label → Option SizedTree)

/-- `_tree_bytes`. -/
def treeBytes : Option SizedTree → Nat
  | none => 0
  | some files => files.total

def bothBytes (trees : Label → Option SizedTree) : Nat :=
  treeBytes (trees .project) + treeBytes (trees .scratch)

def Site.workspaceSize (s : Site) : Nat :=
  match s.staging with
  | some trees => bothBytes trees
  | none => bothBytes s.roots

/-- Every byte that is left of the workspace. -/
def Site.remaining (s : Site) : Nat :=
  bothBytes s.roots + (s.staging.map bothBytes).getD 0

/-- Where a call of `purge_workspace` stands. -/
inductive Phase
  | idle
  /-- The staging directory is to be made. -/
  | staging (released : Nat) (sources : List Label)
  | moving (released : Nat) (todo moved : List Label)
  /-- The handler renames back what was moved, the last first. -/
  | undoing (moved : List Label)
  /-- The handler removes the staging directory and ignores errors. -/
  | clearing
  /-- The staging directory is removed for good. -/
  | removing (released : Nat)

inductive Outcome
  | returned (released : Nat)
  | raised

structure World where
  site : Site
  phase : Phase
  outcome : Option Outcome

inductive Item
  | file (label : Label) (path : List String)
  | entry (label : Label)
  | directory

inductive Act
  | call
  /-- The next `mkdir` or `replace`. -/
  | step
  /-- The next operation fails, and changes nothing. -/
  | fail
  /-- A step of `rmtree`. -/
  | delete (item : Item)
  | crash

namespace World

def ended (w : World) (outcome : Outcome) : World :=
  { w with phase := .idle, outcome := some outcome }

def sources (s : Site) : List Label :=
  [Label.project, .scratch].filter fun label => (s.roots label).isSome

def begin (w : World) : World :=
  match w.site.staging with
  | some trees => { w with phase := .removing (bothBytes trees), outcome := none }
  | none =>
    if sources w.site = [] then w.ended (.returned 0)
    else
      { w with phase := .staging (bothBytes w.site.roots) (sources w.site), outcome := none }

/-- A root becomes an entry of the staging directory. -/
def move (s : Site) (label : Label) : Site :=
  { roots := Function.update s.roots label none
    staging := s.staging.map fun trees => Function.update trees label (s.roots label) }

/-- `if destination.exists() and not source.exists()`. -/
def moveBack (s : Site) (label : Label) : Site :=
  match s.staging with
  | none => s
  | some trees =>
    if (trees label).isSome ∧ s.roots label = none then
      { roots := Function.update s.roots label (trees label)
        staging := some (Function.update trees label none) }
    else s

def step (w : World) : World :=
  match w.phase with
  | .staging released sources =>
    { w with
      site := { w.site with staging := some fun _ => none }
      phase := .moving released sources [] }
  | .moving released [] _ => { w with phase := .removing released }
  | .moving released (label :: todo) moved =>
    { w with site := move w.site label, phase := .moving released todo (label :: moved) }
  | .undoing [] => { w with phase := .clearing }
  | .undoing (label :: moved) =>
    { w with site := moveBack w.site label, phase := .undoing moved }
  | .idle | .clearing | .removing _ => w

/-- Where a tree cannot be renamed back, the handler of the provisioner raises; the local
worker goes on. -/
def fail (side : Provisioner) (w : World) : World :=
  match w.phase with
  | .moving _ (_ :: _) moved => { w with phase := .undoing moved }
  | .undoing (_ :: moved) =>
    match side with
    | .filesystem => w.ended .raised
    | .localWorker => { w with phase := .undoing moved }
  | .staging _ _ | .clearing | .removing _ => w.ended .raised
  | .idle | .moving _ [] _ | .undoing [] => w

def deleteItem (trees : Label → Option SizedTree) : Item → Option (Label → Option SizedTree)
  | .file label path =>
    some (Function.update trees label ((trees label).map fun files => files.erase path))
  | .entry label =>
    some (if trees label = some ∅ then Function.update trees label none else trees)
  | .directory => if trees .project = none ∧ trees .scratch = none then none else some trees

/-- The staging directory goes last, when it is empty. -/
def delete (w : World) (item : Item) : World :=
  match w.site.staging, w.phase with
  | some trees, .clearing =>
    match deleteItem trees item with
    | some trees => { w with site := { w.site with staging := some trees } }
    | none => { w with site := { w.site with staging := none } }.ended .raised
  | some trees, .removing released =>
    match deleteItem trees item with
    | some trees => { w with site := { w.site with staging := some trees } }
    | none => { w with site := { w.site with staging := none } }.ended (.returned released)
  | _, _ => w

def after (side : Provisioner) (w : World) : Act → World
  | .call =>
    match w.phase with
    | .idle => w.begin
    | _ => w
  | .step => w.step
  | .fail => w.fail side
  | .delete item => w.delete item
  | .crash => { w with phase := .idle, outcome := none }

/-- A workspace that nobody has tried to purge. -/
def initial (roots : Label → Option SizedTree) : World where
  site := ⟨roots, none⟩
  phase := .idle
  outcome := none

end World

/-- What is promised at any moment: a call that has returned leaves none of the three
trees, and the size counts all their bytes. Both calls wait for one lock, so that a size
is asked for only while no purge runs. -/
structure CrashSafe (w : World) : Prop where
  complete : ∀ released, w.outcome = some (.returned released) →
    (∀ label, w.site.roots label = none) ∧ w.site.staging = none
  counted : w.phase = .idle → w.site.workspaceSize = w.site.remaining

/-- An act by which a purge breaks off between the making of the staging directory and the
last rename, and does not take the staging directory away again. -/
def Strands (side : Provisioner) (w : World) (act : Act) : Prop :=
  match w.phase, act with
  | .moving _ (_ :: _) _, .crash | .undoing _, .crash | .clearing, .crash => True
  | .undoing (_ :: _), .fail => side = .filesystem
  | .clearing, .fail => True
  | _, _ => False

section

-- the equations of the step are derived here once, and not by each proof that needs them
attribute [local simp] World.step World.fail World.deleteItem World.delete World.after Strands

end

end Fairy.Workspace.Purge
