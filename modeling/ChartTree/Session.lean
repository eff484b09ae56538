import ChartTree.Node.Sharing
import ChartTree.Settings
import ChartTree.Store

/-!
# Sessions

A session makes nodes, calls their setters, copies them, writes behind the setters and changes the
settings, one step after the other. A refused step answers with its reason, and the next step goes
on from what it left. The caller may also take hold of a list or a dictionary that a node has, and
hand it over like one of its own. A change inside an object that several nodes hold, or one node in
several places, shows wherever the object stands.
-/

namespace ChartTree

/-- A step of a session. -/
inductive Step where
  | make (construction : Construction)
  | call (id : Nat) (call : Call)
  | copy (id : Nat) (recursive : Bool)
  | write (id : Nat) (write : Write)
  | hold (id : Nat) (place : Place) (path : List Value) (number : Nat)
  | configure (settings : Settings)

/-- The state of a session. -/
structure Session where
  store : Store
  schemaUrl : String

namespace Session

def start (settings : Settings) : Session :=
  ⟨.empty, settings.schemaUrl⟩

/-- What a step answers: a new node if it made one, or why it was refused. -/
abbrev Answer := Except BuildError (Option NodeRef)

/-- The session with a node that a call has left, and with the entries that it has changed. -/
def edited (s : Session) (id : Nat) (n : Node) (paths : List (Place × List String)) : Session :=
  { s with store := (n.entriesAlong paths).foldl Store.putEntry (s.store.set id n) }

/-- Calls a setter of a node. A refused call leaves the node as the setter left it. -/
def call (s : Session) (id : Nat) (c : Call) : Answer × Session :=
  match s.store.node? id with
  | none => (.ok none, s)
  | some n =>
    match c.edit.run n with
    | .ok _ n => (.ok none, s.edited id n (c.paths n.kind))
    | .error reason n => (.error reason, s.edited id n (c.pathsRefused n))

/-- Changes a node behind its setters, and with it the objects that the change has reached. -/
def changed (s : Session) (id : Nat) (change : Edit (List Value)) : Answer × Session :=
  match s.store.node? id with
  | none => (.ok none, s)
  | some n =>
    match change.run n with
    | .ok objects n =>
      (.ok none, { s with store := objects.foldl Store.putContent (s.store.set id n) })
    | .error reason n => (.error reason, { s with store := s.store.set id n })

def write (s : Session) (id : Nat) (w : Write) : Answer × Session :=
  s.changed id (Edit.write w)

/-- Takes hold of the list or dictionary at a path of a node, which the caller knows by a number
from then on, unless it knows it already. -/
def hold (s : Session) (id : Nat) (place : Place) (path : List Value) (number : Nat) :
    Answer × Session :=
  match s.store.node? id with
  | none => (.ok none, s)
  | some n =>
    match Edit.valueAt n place >>= Value.partAt path with
    | .error reason => (.error (.misuse reason), s)
    | .ok part =>
      if part.isCollection then
        match part.identity? with
        | none => s.changed id (Edit.changePlace place path (Value.namedAt path (.object number)))
        | some (.copy source occasion) => (.ok none, { s with
            store := s.store.renew (.copy source occasion) (Value.named (.object number)) })
        | some _ => (.ok none, s)
      else (.ok none, s)

/-- The store with the copy of a node in it: with a new node for every place of its chart, or with
its own inner nodes. -/
def copied (s : Store) (id : Nat) (recursive : Bool) : Except Misuse (Option NodeRef × Store) :=
  if recursive then
    match s.chart? id with
    | none => .ok (none, s)
    | some c => (s.copyChart c).map fun (v, s) => (v.node?, s)
  else
    match s.node? id with
    | none => .ok (none, s)
    | some n => (s.copyNode n).map fun (node, s) => (some node, s)

def copy (s : Session) (id : Nat) (recursive : Bool) : Answer × Session :=
  match copied s.store id recursive with
  | .error reason => (.error (.misuse reason), s)
  | .ok (node, store) => (.ok node, { s with store := store })

def step (s : Session) : Step → Answer × Session
  | .make construction =>
    match construction.build s.schemaUrl with
    | .error reason => (.error reason, s)
    | .ok n =>
      let (node, store) := s.store.add n
      (.ok (some node), { s with store := store })
  | .call id call => s.call id call
  | .copy id recursive => s.copy id recursive
  | .write id write => s.write id write
  | .hold id place path number => s.hold id place path number
  | .configure settings => (.ok none, { s with schemaUrl := settings.schemaUrl })

def run (s : Session) (steps : List Step) : Session :=
  steps.foldl (fun s step => (s.step step).2) s

end Session

end ChartTree
