import ChartTree.Proofs.Node.Vocabularies
import ChartTree.Proofs.Session.Copying

/-!
# Types in a session

The types of all nodes stay in their vocabularies as long as no call that goes through puts another
one in their place. Making nodes and copying them never does, so the first node with a type from
outside shows where a call gave an option of that kind.
-/

namespace ChartTree

/-! ### Copies and constructions -/

theorem Spec.properties_copied {s t : Spec} {first second : Option Nat}
    (copy : s.copied first second = .ok t) : t.properties = Value.copied first s.properties := by
  obtain ⟨_, _, _, _, rfl⟩ := Spec.copied_eq_ok copy
  rfl

theorem Node.ClosedTypes.copied {n : Node} (h : n.ClosedTypes) {first second : Option Nat}
    {spec : Spec} (copy : n.toSpec.copied first second = .ok spec) (children child : Value) :
    Node.ClosedTypes ⟨spec, children, child⟩ := by
  rw [ClosedTypes, Spec.properties_copied copy]
  exact (Value.closedTypes_copied first).2 h

theorem Construction.build_closedTypes {construction : Construction} {url : String} {n : Node}
    (built : construction.build url = .ok n) : n.ClosedTypes := by
  obtain ⟨kind, _, rfl | ⟨call, rfl, _, slot⟩⟩ := build_eq built
  · exact Node.fresh_closedTypes kind url
  · have untyped : call.typing? = none := by
      cases call with
      | mark | projection => rcases slot with slot | slot <;> cases slot
      | encode channel =>
        rcases slot with slot | slot <;>
          · obtain ⟨_, _, eq⟩ := Option.map_eq_some_iff.1 slot
            cases eq
      | _ => rfl
    have named : call.Named := fun _ _ typing => by cases untyped.symm.trans typing
    refine (call.closedTypes_on (Node.fresh_shaped kind url) (Node.fresh_closedTypes kind url)
      named).2 fun _ => .inr fun _ _ typing => by cases untyped.symm.trans typing

/-! ### Steps -/

/-- A step calls nothing that goes through without keeping the type of what it writes. -/
def Step.KeepsTypes (s : Store) (step : Step) : Prop :=
  ∀ id call n, step = .call id call → s.node? id = some n → call.answer n = .ok () → call.KeepsType

namespace Session

variable {s : Session}

/-- Steps each of which keeps the types where it is taken. -/
def KeepsTypes (s : Session) : List Step → Prop
  | [] => True
  | step :: steps => step.KeepsTypes s.store ∧ KeepsTypes (s.step step).2 steps

theorem call_closedTypes_iff (h : s.store.Sound) (closed : s.store.Every Node.ClosedTypes)
    (id : Nat) {call : Call} (named : call.Named) :
    (s.step (.call id call)).2.store.Every Node.ClosedTypes ↔
      (Step.call id call).KeepsTypes s.store := by
  rw [Session.step]
  cases found : s.store.node? id with
  | none =>
    rw [Session.call, found]
    refine iff_of_true closed fun i other n eq here _ => ?_
    cases eq
    cases found.symm.trans here
  | some n =>
    have written := call.closedTypes_on (h id n found).1 (closed id n found) named
    rw [call_eq found (h id n found).1]
    constructor
    · intro every i other m eq here through
      cases eq
      cases found.symm.trans here
      refine written.1 (every id _ ?_) through
      rw [Store.node?, Store.set, Array.getElem?_setIfInBounds_self_of_lt (Store.node?_lt found)]
    · intro keeps
      exact closed.set id (written.2 fun through => keeps id call n rfl found through)

/-- A checked step leaves all types in their vocabularies just if it keeps the types. -/
theorem step_closedTypes_iff (h : s.store.Sound) (closed : s.store.Every Node.ClosedTypes)
    {step : Step} (checked : step.Checked) :
    (s.step step).2.store.Every Node.ClosedTypes ↔ step.KeepsTypes s.store := by
  have other (no_call : ∀ id call, step ≠ .call id call) : step.KeepsTypes s.store :=
    fun id call _ eq => absurd eq (no_call id call)
  cases checked with
  | @make maker args construction _ _ =>
    refine iff_of_true ?_ (other fun _ _ eq => by cases eq)
    rw [Session.step]
    cases built : construction.build s.schemaUrl with
    | error reason => exact closed
    | ok n => exact closed.add (Construction.build_closedTypes built)
  | call id distinct fits =>
    exact call_closedTypes_iff h closed id (Method.named_of_bind? distinct fits)
  | copy id recursive =>
    refine iff_of_true ?_ (other fun _ _ eq => by cases eq)
    rw [Session.step, copy]
    cases done : copied s.store id recursive with
    | error reason => exact closed
    | ok r => exact copied_every closed (fun held copy => held.copied copy _ _) done
  | configure settings => exact iff_of_true closed (other fun _ _ eq => by cases eq)

/-- All types are in their vocabularies after every part of the steps just if every step keeps
them. -/
theorem run_closedTypes_iff (h : s.store.Sound) (closed : s.store.Every Node.ClosedTypes)
    {steps : List Step} (checked : ∀ step ∈ steps, step.Checked) (proper : s.Proper steps) :
    (∀ done rest, steps = done ++ rest → (s.run done).store.Every Node.ClosedTypes) ↔
      s.KeepsTypes steps := by
  induction steps generalizing s with
  | nil =>
    refine iff_of_true (fun done rest eq => ?_) trivial
    obtain ⟨rfl, _⟩ := List.append_eq_nil_iff.1 eq.symm
    exact closed
  | cons step steps ih =>
    obtain ⟨here, later⟩ := List.forall_mem_cons.1 checked
    have sound := (step_sound h proper.1).1
    have first := step_closedTypes_iff h closed here
    constructor
    · intro all
      have after : (s.step step).2.store.Every Node.ClosedTypes := all [step] steps rfl
      refine ⟨first.1 after, (ih sound after later proper.2).1 fun done rest eq => ?_⟩
      exact all (step :: done) rest (by rw [eq, List.cons_append])
    · rintro ⟨keeps, rest_keep⟩ done rest eq
      have after := first.2 keeps
      cases done with
      | nil => exact closed
      | cons step' done =>
        obtain ⟨rfl, split⟩ := List.cons.inj eq
        exact (ih sound after later proper.2).2 rest_keep done rest split

end Session

end ChartTree
