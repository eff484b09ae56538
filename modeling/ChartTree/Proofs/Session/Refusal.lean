import ChartTree.Proofs.Node.Refusal
import ChartTree.Proofs.Session.Copying
import ChartTree.Proofs.Value.Objects

/-!
# Refused calls in a session

In a session in which only what goes past the setters could do so, and does not, replace a
dictionary of a node by anything else, every node is tidy: all other steps keep that, copies
included. A refused call then leaves the whole session as it was, in whatever state the writes have
brought its node.
-/

namespace ChartTree

/-! ### Fresh and copied nodes -/

theorem Value.IsMap.copied {v : Value} (h : v.IsMap) (occasion : Option Nat) :
    (Value.copied occasion v).IsMap := by
  obtain ⟨id, d, rfl⟩ := h
  rw [Value.copied]
  exact ⟨_, _, rfl⟩

/-! ### Changed entries -/

namespace Value

variable {source : Value} {name : String} {object : Identity}

theorem IsMap.withEntryOf {v : Value} (h : v.IsMap) : (Value.withEntryOf source name v).IsMap := by
  obtain ⟨id, d, rfl⟩ := h
  rw [Value.withEntryOf]
  split
  · split <;> exact ⟨id, _, rfl⟩
  · exact ⟨id, d, rfl⟩

theorem content_withEntryOf {v : Value} {s : String} :
    (Value.withEntryOf source name v).content = .string s ↔ v.content = .string s := by
  obtain ⟨id, c⟩ := v
  cases c with
  | dict d =>
    have map : (Value.withEntryOf source name ⟨id, .dict d⟩).IsMap := .withEntryOf ⟨id, d, rfl⟩
    obtain ⟨_, e, eq⟩ := map
    rw [eq]
    exact ⟨fun same => (nomatch same), fun same => (nomatch same)⟩
  | _ => exact Iff.rfl

/-- A dictionary that gets an entry from another one has what that one has under its key, and else
what it had. -/
theorem field?_withEntryOf {id : Option Identity} {d : Dict} {key : String} {v : Value}
    (held : (Value.withEntryOf source name ⟨id, .dict d⟩).field? key = some v) :
    key = name ∧ source.field? name = some v ∨ Dict.get? d (.string key) = some v := by
  obtain ⟨id', c⟩ := source
  cases c with
  | dict others =>
    by_cases same : key = name
    · subst same
      refine .inl ⟨rfl, ?_⟩
      rw [Value.withEntryOf] at held
      show Dict.get? others (.string key) = some v
      cases there : Dict.get? others (.string key) with
      | none =>
        simp only [Value.content, there] at held
        cases (Dict.get?_erase_self d key).symm.trans held
      | some w =>
        simp only [Value.content, there] at held
        exact (Dict.get?_insert_self d key w).symm.trans held
    · refine .inr ?_
      rw [Value.withEntryOf] at held
      cases there : Dict.get? others (.string name) with
      | none =>
        simp only [Value.content, there] at held
        exact (Dict.get?_erase_of_ne d (Ne.symm same)).symm.trans held
      | some w =>
        simp only [Value.content, there] at held
        exact (Dict.get?_insert_of_ne d (Ne.symm same) w).symm.trans held
  | _ => exact .inr held

theorem IsMap.renewed {v : Value} (h : v.IsMap) :
    (Value.renewed object (Value.withEntryOf source name) v).IsMap := by
  obtain ⟨id, d, rfl⟩ := h
  rw [Value.renewed, replaced]
  split
  · exact IsMap.withEntryOf ⟨id, _, rfl⟩
  · exact ⟨id, _, rfl⟩

theorem content_renewed {v : Value} {s : String} :
    (Value.renewed object (Value.withEntryOf source name) v).content = .string s ↔
      v.content = .string s := by
  have replacing (w : Value) :
      (replaced object (Value.withEntryOf source name) w).content = .string s ↔
        w.content = .string s := by
    rw [replaced]
    split
    · exact content_withEntryOf
    · exact Iff.rfl
  obtain ⟨id, c⟩ := v
  cases c with
  | list items | tuple items | dict entries | reference url values options =>
    rw [Value.renewed, replacing]
    constructor
    · intro eq
      cases eq
    · intro eq
      cases eq
  | _ => rw [renewed_scalar rfl]; exact replacing _

end Value

theorem Dict.get?_renewedEntries {source : Value} {name : String} {object : Identity} (d : Dict)
    (key : String) :
    Dict.get? (Value.renewedEntries object (Value.withEntryOf source name) d) (.string key) =
      (Dict.get? d (.string key)).map (Value.renewed object (Value.withEntryOf source name)) := by
  induction d with
  | nil => rfl
  | cons e d ih =>
    obtain ⟨k, v⟩ := e
    have same : (Value.renewed object (Value.withEntryOf source name) k).content = .string key ↔
        k.content = .string key := Value.content_renewed
    by_cases here : k.content = .string key
    · have after := same.2 here
      rw [Value.renewedEntries, get?_of_content after, get?_of_content here, Option.map_some]
    · have after := mt same.1 here
      rw [Value.renewedEntries, get?_of_content_ne after, get?_of_content_ne here, ih]

namespace Node

/-- Nodes stay tidy when a dictionary in them gets an entry of another one that fits. -/
theorem Tidy.renewed {n : Node} (h : n.Tidy) {source : Value} {name : String} {object : Identity}
    (fits : name ∈ mapKeys → ∀ v, source.field? name = some v → v.IsMap) :
    (n.renewed object (Value.withEntryOf source name)).Tidy where
  properties := h.properties.renewed
  channels := h.channels.renewed
  maps := by
    intro key mem v found
    obtain ⟨id, d, eq⟩ := h.properties
    have kept (w : Value) (held : Dict.get? (Value.renewedEntries object
        (Value.withEntryOf source name) d) (.string key) = some w) : w.IsMap := by
      rw [Dict.get?_renewedEntries] at held
      obtain ⟨u, stands, rfl⟩ := Option.map_eq_some_iff.1 held
      exact (h.maps key mem u (by rw [eq]; exact stands)).renewed
    replace found : (Value.renewed object (Value.withEntryOf source name) n.properties).field? key =
        some v := found
    rw [eq, Value.renewed, Value.replaced] at found
    split at found
    · rcases Value.field?_withEntryOf found with ⟨rfl, held⟩ | held
      · exact fits mem v held
      · exact kept v held
    · exact kept v found

theorem fresh_tidy (kind : Kind) (url : String) : (fresh kind url).Tidy where
  properties := ⟨none, _, rfl⟩
  channels := ⟨none, [], rfl⟩
  maps key mem v found := by
    have shaped := fresh_shaped kind url
    obtain ⟨entries, definitions, bindings, spec⟩ := shaped.spec
    obtain ⟨d, rfl⟩ := spec.isDict_of_mem found mem
    exact ⟨none, d, rfl⟩

/-- A node around what was copied from a tidy one is tidy. -/
theorem Tidy.copied {n : Node} (h : n.Tidy) {first second : Option Nat} {spec : Spec}
    (copy : n.toSpec.copied first second = .ok spec) (children child : Value) :
    Tidy ⟨spec, children, child⟩ := by
  obtain ⟨channels, data, _, _, rfl⟩ := Spec.copied_eq_ok copy
  refine ⟨h.properties.copied first, ⟨none, channels, rfl⟩, fun key mem v found => ?_⟩
  have held := (Value.field?_copied first n.properties key).symm.trans found
  obtain ⟨w, stands, rfl⟩ := Option.map_eq_some_iff.1 held
  exact (h.maps key mem w stands).copied first

end Node

theorem Store.Every.renew {P : Node → Prop} {s : Store} (h : s.Every P) {object : Identity}
    {change : Value → Value} (keeps : ∀ n, P n → P (n.renewed object change)) :
    (s.renew object change).Every P := by
  intro id n found
  rw [Store.node?, Store.renew, Array.getElem?_map] at found
  obtain ⟨m, there, rfl⟩ := Option.map_eq_some_iff.1 found
  exact keeps m (h id m there)

namespace Construction

theorem build_tidy {construction : Construction} {url : String} {n : Node}
    (built : construction.build url = .ok n) : n.Tidy := by
  obtain ⟨kind, _, rfl | ⟨call, rfl, _⟩⟩ := build_eq built
  · exact Node.fresh_tidy kind url
  · have careful := call.careful (Node.fresh_tidy kind url)
    rw [Edit.Careful] at careful
    rw [Call.on]
    cases run : call.edit.run (.fresh kind url) with
    | ok _ m =>
      rw [run] at careful
      exact careful
    | error reason m =>
      rw [run] at careful
      exact careful.1 ▸ Node.fresh_tidy kind url

end Construction

/-- A step that does not go through the setters. -/
def Step.PastSetters : Step → Prop
  | .write .. | .hold .. => True
  | _ => False

/-- A refused call on a tidy node changes no entry. -/
theorem Node.Tidy.pathsRefused_eq {n : Node} (h : n.Tidy) (c : Call) : c.pathsRefused n = [] := by
  obtain ⟨id, d, eq⟩ := h.channels
  cases c with
  | bindAxis axis channel fields =>
    rw [Call.pathsRefused, eq]
    rfl
  | _ => rfl

namespace Session

variable {s : Session}

/-- Steps each of which leaves all nodes tidy if it goes past the setters. -/
def WritesTidily (s : Session) : List Step → Prop
  | [] => True
  | step :: steps =>
    (step.PastSetters → (s.step step).2.store.Every Node.Tidy) ∧
      WritesTidily (s.step step).2 steps

theorem edited_tidy (h : s.store.Every Node.Tidy) (id : Nat) {n : Node} (tidy : n.Tidy)
    {paths : List (Place × List String)} (call : ∀ path ∈ paths, IsCallPath path) :
    (s.edited id n paths).store.Every Node.Tidy := by
  -- An entry under the key of a dictionary is one of the properties, which are tidy.
  have fit : ∀ e ∈ n.entriesAlong paths,
      e.2 ∈ mapKeys → ∀ v, e.1.field? e.2 = some v → v.IsMap := by
    intro e he mem v held
    rcases Node.container_of_mem call he with eq | ⟨plain, _⟩
    · rw [eq] at held
      exact tidy.maps e.2 mem v held
    · exact absurd mem plain
  rw [edited]
  generalize n.entriesAlong paths = entries at fit
  have set := h.set id tidy
  generalize s.store.set id n = store at set
  simp only
  induction entries generalizing store with
  | nil => exact set
  | cons e entries ih =>
    obtain ⟨first, rest⟩ := List.forall_mem_cons.1 fit
    refine ih rest (store.putEntry e) ?_
    rw [Store.putEntry]
    split
    · exact Store.Every.renew set fun _ tidy => tidy.renewed first
    · exact set

/-- A call leaves all nodes tidy; a refused one leaves the session as it was. -/
theorem call_tidy (h : s.store.Every Node.Tidy) (id : Nat) (c : Call) :
    (s.call id c).2.store.Every Node.Tidy := by
  rw [call]
  cases found : s.store.node? id with
  | none => exact h
  | some n =>
    have careful := c.careful (h id n found)
    rw [Edit.Careful] at careful
    cases run : c.edit.run n with
    | ok _ m =>
      rw [run] at careful
      simp only [run]
      exact edited_tidy h id careful (c.paths_isCallPath m.kind)
    | error reason m =>
      rw [run] at careful
      simp only [run]
      exact edited_tidy h id (careful.1 ▸ h id n found) (c.pathsRefused_isCallPath m)

theorem step_tidy (h : s.store.Every Node.Tidy) {step : Step}
    (writes : step.PastSetters → (s.step step).2.store.Every Node.Tidy) :
    (s.step step).2.store.Every Node.Tidy := by
  cases step with
  | make construction =>
    rw [Session.step]
    cases built : construction.build s.schemaUrl with
    | error reason => exact h
    | ok n => exact h.add (Construction.build_tidy built)
  | call id call => exact call_tidy h id call
  | copy id recursive =>
    rw [Session.step, copy]
    cases done : copied s.store id recursive with
    | error reason => exact h
    | ok r => exact copied_every h (fun tidy copy => tidy.copied copy _ _) done
  | write id write => exact writes trivial
  | hold id place path number => exact writes trivial
  | configure settings => exact h

theorem run_tidy (h : s.store.Every Node.Tidy) {steps : List Step} (writes : s.WritesTidily steps) :
    (s.run steps).store.Every Node.Tidy := by
  induction steps generalizing s with
  | nil => exact h
  | cons step steps ih => exact ih (step_tidy h writes.1) writes.2

end Session

theorem Store.set_self {s : Store} {id : Nat} {n : Node} (found : s.node? id = some n) :
    s.set id n = s := by
  obtain ⟨lt, eq⟩ := Array.getElem?_eq_some_iff.1 found
  have same : s.nodes.setIfInBounds id n = s.nodes := by
    rw [← eq, Array.setIfInBounds, dif_pos lt, Array.set_getElem_self]
  rw [Store.set, same]

/-- In a session whose writes keep the dictionaries of nodes, a refused call changes nothing at all.
It is refused for its arguments or because a dictionary of definitions is gone. -/
theorem refused_call_changes_nothing {settings : Settings} {steps : List Step}
    (writes : (Session.start settings).WritesTidily steps) {id : Nat} {call : Call}
    {reason : BuildError}
    (refused : (((Session.start settings).run steps).step (.call id call)).1 = .error reason) :
    (((Session.start settings).run steps).step (.call id call)).2 =
        (Session.start settings).run steps ∧
      ∃ n, ((Session.start settings).run steps).store.node? id = some n ∧ n.MayRefuse reason := by
  have tidy := Session.run_tidy (s := .start settings) Store.Every.empty writes
  generalize (Session.start settings).run steps = s at refused tidy ⊢
  rw [Session.step, Session.call] at refused ⊢
  cases found : s.store.node? id with
  | none =>
    rw [found] at refused
    cases refused
  | some n =>
    have careful := call.careful (tidy id n found)
    rw [Edit.Careful] at careful
    simp only [found] at refused ⊢
    cases run : call.edit.run n with
    | ok _ m =>
      rw [run] at refused
      cases refused
    | error reason' m =>
      rw [run] at refused careful
      cases refused
      obtain ⟨rfl, may⟩ := careful
      have same : s.edited id m (call.pathsRefused m) = s := by
        rw [Session.edited, (tidy id m found).pathsRefused_eq, Store.set_self found]
        rfl
      exact ⟨same, m, rfl, may⟩

/-- A repeat with a bound row whose repeated fields a write has taken away. -/
def deletingSteps : List Step :=
  [.make (.ofKind "repeat"), .call 0 (.bindAxis .row "y" (.list ["u"])),
    .write 0 (.remove .properties ["repeat"])]

theorem deletingSteps_tidy : (Session.start .unset).WritesTidily deletingSteps := by
  refine ⟨fun past => past.elim, fun past => past.elim, fun _ => ?_, trivial⟩
  show ((Session.start .unset).run deletingSteps).store.Every Node.Tidy
  obtain ⟨m, alone, properties, channels⟩ : ∃ m,
      ((Session.start .unset).run deletingSteps).store.nodes = #[m] ∧
        m.properties = .dict [("$schema", defaultSchemaUrl)] ∧
        m.repeatChannels = .dict [("row", "y")] := ⟨_, rfl, rfl, rfl⟩
  have tidy : m.Tidy := by
    refine ⟨⟨none, _, properties⟩, ⟨none, _, channels⟩, fun key mem v found => ?_⟩
    have gone : ∀ key ∈ mapKeys,
        Value.field? (.dict [("$schema", defaultSchemaUrl)]) key = none := by decide
    rw [properties, gone key mem] at found
    cases found
  intro id n found
  rw [Store.node?, alone] at found
  obtain ⟨lt, eq⟩ := Array.getElem?_eq_some_iff.1 found
  have first : id = 0 := Nat.lt_one_iff.1 lt
  subst first
  exact eq ▸ tidy

theorem refused_call_changes_nothing_of_deleted :
    let s := (Session.start .unset).run deletingSteps
    let call : Call := .bindAxis .column "x" (.list ["v"])
    (Session.start .unset).WritesTidily deletingSteps ∧
      (s.step (.call 0 call)).1 = .error (.misuse (.missing "repeat")) ∧
        (s.step (.call 0 call)).2 = s ∧
          ∃ n, s.store.node? 0 = some n ∧ n.MayRefuse (.misuse (.missing "repeat")) := by
  intro s call
  have refused : (s.step (.call 0 call)).1 = .error (.misuse (.missing "repeat")) := rfl
  exact ⟨deletingSteps_tidy, refused, refused_call_changes_nothing deletingSteps_tidy refused⟩

end ChartTree
