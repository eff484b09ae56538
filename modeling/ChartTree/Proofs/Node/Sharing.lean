import ChartTree.Node.Sharing
import ChartTree.Proofs.Node.Setters
import ChartTree.Store

/-!
# What calls change in place

A call writes single entries: of the properties, of the channels that axes are bound to, or of a
dictionary of definitions or axes among the properties. As long as these dictionaries have no
identity, nobody else holds them, and a call changes its own node only.
-/

namespace ChartTree

/-- The paths of calls. Names of properties, channels and axes are not those of dictionaries. -/
inductive IsCallPath : Place × List String → Prop where
  | entry {place : Place} {name : String} (own : place ≠ .options) (plain : name ∉ mapKeys) :
      IsCallPath (place, [name])
  | inside {key name : String} (mem : key ∈ mapKeys) (plain : name ∉ mapKeys) :
      IsCallPath (.properties, [key, name])

namespace Channel

theorem storedName_not_mem_mapKeys (c : Channel) : c.storedName ∉ mapKeys := by
  cases c <;> decide

end Channel

namespace Axis

theorem name_not_mem_mapKeys (a : Axis) : a.name ∉ mapKeys := by
  cases a <;> decide

end Axis

namespace Call

theorem paths_isCallPath (c : Call) (k : Kind) : ∀ path ∈ c.paths k, IsCallPath path := by
  cases c with
  | data | inner => exact List.forall_mem_nil _
  | mark | transform | projection =>
    exact List.forall_mem_singleton.2 (.entry (by decide) (by decide))
  | property p => exact List.forall_mem_singleton.2 (.entry (by decide) p.key_not_mem_mapKeys)
  | encode channel =>
    rw [paths]
    cases Edit.channelArg channel with
    | ok c =>
      exact List.forall_mem_singleton.2
        (.inside k.channelsKey_mem_mapKeys c.storedName_not_mem_mapKeys)
    | error reason => exact List.forall_mem_nil _
  | bindAxis axis =>
    have repeats : IsCallPath (.properties, ["repeat", axis.name]) :=
      .inside (by decide) axis.name_not_mem_mapKeys
    have binds : IsCallPath (.repeatChannels, [axis.name]) :=
      .entry (by decide) axis.name_not_mem_mapKeys
    exact List.forall_mem_cons.2 ⟨repeats, List.forall_mem_singleton.2 binds⟩

theorem pathsRefused_isCallPath (c : Call) (n : Node) :
    ∀ path ∈ c.pathsRefused n, IsCallPath path := by
  cases c with
  | bindAxis axis =>
    rw [pathsRefused]
    split
    · exact List.forall_mem_nil _
    · exact List.forall_mem_singleton.2 (.inside (by decide) axis.name_not_mem_mapKeys)
  | _ => exact List.forall_mem_nil _

end Call

/-! ### The dictionaries along a path -/

namespace Node

variable {n : Node}

theorem entriesAlong_single {v : Value} {name : String} {e : Value × String}
    (mem : e ∈ v.entriesAlong [name]) : e = (v, name) := by
  obtain ⟨id, c⟩ := v
  cases c with
  | dict entries =>
    simp only [Value.entriesAlong, List.mem_cons] at mem
    rcases mem with rfl | mem
    · rfl
    · cases held : Dict.get? entries (.string name) <;> simp [held] at mem
  | _ => cases mem

theorem entriesAlong_double {v : Value} {key name : String} {e : Value × String}
    (mem : e ∈ v.entriesAlong [key, name]) :
    e = (v, key) ∨ v.field? key = some e.1 ∧ e.2 = name := by
  obtain ⟨id, c⟩ := v
  cases c with
  | dict entries =>
    rw [Value.entriesAlong, List.mem_cons] at mem
    refine mem.imp_right fun mem => ?_
    cases held : Dict.get? entries (.string key) with
    | none => simp [held] at mem
    | some w =>
      rw [held] at mem
      have eq := entriesAlong_single mem
      exact ⟨held.trans (congrArg some (congrArg Prod.fst eq.symm)), congrArg Prod.snd eq⟩
  | _ => cases mem

/-- What a call writes in: the properties or the channels of axes, or a dictionary of definitions
or axes. Only in the properties is an entry under the key of such a dictionary written. -/
theorem container_of_mem {paths : List (Place × List String)}
    (call : ∀ path ∈ paths, IsCallPath path) {e : Value × String}
    (mem : e ∈ n.entriesAlong paths) :
    e.1 = n.properties ∨ e.2 ∉ mapKeys ∧
      (e.1 = n.repeatChannels ∨ ∃ key ∈ mapKeys, n.properties.field? key = some e.1) := by
  obtain ⟨path, member, mem⟩ := List.mem_flatMap.1 mem
  cases call path member with
  | @entry place name own plain =>
    cases place with
    | properties => exact .inl (congrArg Prod.fst (entriesAlong_single mem))
    | repeatChannels =>
      have eq := entriesAlong_single mem
      exact .inr ⟨congrArg Prod.snd eq ▸ plain, .inl (congrArg Prod.fst eq)⟩
    | options => exact absurd rfl own
  | @inside key name keyed plain =>
    rcases entriesAlong_double mem with eq | ⟨held, eq⟩
    · exact .inl (congrArg Prod.fst eq)
    · exact .inr ⟨eq ▸ plain, .inr ⟨key, keyed, held⟩⟩

end Node

theorem Spec.Unshared.identity?_of_mem {n : Node} (h : n.toSpec.Unshared)
    (channels : n.repeatChannels.identity? = none) {paths : List (Place × List String)}
    (call : ∀ path ∈ paths, IsCallPath path) {e : Value × String}
    (mem : e ∈ n.entriesAlong paths) : e.1.identity? = none := by
  rcases Node.container_of_mem call mem with eq | ⟨_, eq | ⟨key, keyed, held⟩⟩
  · exact (congrArg Value.identity? eq).trans h.properties
  · exact (congrArg Value.identity? eq).trans channels
  · exact (h.maps key keyed _ held).identity?_eq

/-- Entries of dictionaries without an identity are nowhere else. -/
theorem Store.foldl_putEntry_of_none (s : Store) {entries : List (Value × String)}
    (none : ∀ e ∈ entries, e.1.identity? = none) : entries.foldl Store.putEntry s = s := by
  induction entries with
  | nil => rfl
  | cons e entries ih =>
    obtain ⟨first, rest⟩ := List.forall_mem_cons.1 none
    rw [List.foldl_cons, Store.putEntry, first]
    exact ih rest

end ChartTree
