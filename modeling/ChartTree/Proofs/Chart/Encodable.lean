import ChartTree.Json.Standard
import ChartTree.Proofs.Chart.Rebinding
import ChartTree.Proofs.Chart.Sources
import ChartTree.Proofs.Json.Acceptance
import ChartTree.Proofs.Value.Objects

/-!
# Documents that have a JSON form

Compiling brings nothing into a document that JSON refuses. Whatever it makes or moves are texts as
keys, dictionaries, lists, copies of what the nodes hold and the inline collections themselves. So
a document has a JSON form if the properties, options and collections of its chart have one.
-/

namespace ChartTree

/-! ### Dictionaries and copies -/

/-- No spot of the entries of a dictionary has a fault. -/
def Dict.Encodable (d : Dict) : Prop :=
  ∀ e ∈ d, e.1.NamesMember ∧ e.2.Encodable

namespace Value

variable {v : Value} {id : Option Identity}

theorem IsText.encodable (h : v.IsText) : v.Encodable := by
  obtain ⟨s, content⟩ := h
  obtain ⟨id, c⟩ := v
  cases content
  exact encodable_string s

theorem NamesMember.copied (h : v.NamesMember) (occasion : Option Nat) :
    (Value.copied occasion v).NamesMember := by
  obtain ⟨_, c⟩ := v
  cases c <;> first
    | rfl
    | cases h

theorem spots_scalar {content : Content Value} (scalar : content.isScalar = true) :
    spots ⟨id, content⟩ = [.value ⟨id, content⟩] := by
  cases content <;> first
    | rfl
    | cases scalar

theorem Encodable.copied (h : v.Encodable) (occasion : Option Nat) :
    (Value.copied occasion v).Encodable := by
  induction v using induction with
  | list id items ih =>
    rw [encodable_list] at h
    rw [Value.copied, encodable_list, copiedItems_eq_map, List.forall_mem_map]
    exact fun w mem => ih w mem (h w mem)
  | tuple id items ih =>
    rw [encodable_tuple] at h
    rw [Value.copied, encodable_tuple, copiedItems_eq_map, List.forall_mem_map]
    exact fun w mem => ih w mem (h w mem)
  | dict id entries ih =>
    rw [encodable_dict] at h
    rw [Value.copied, encodable_dict, copiedEntries_eq_map, List.forall_mem_map]
    exact fun e mem => ⟨(h e mem).1.copied occasion, (ih e mem).2 (h e mem).2⟩
  | reference id url values options =>
    have fault := h (.value ⟨id, .reference url values options⟩) (List.mem_singleton.2 rfl)
    cases fault
  | scalar id content scalar =>
    -- A fault of a scalar does not depend on which object it is.
    intro p mem
    rw [copied_scalar scalar, spots_scalar scalar, List.mem_singleton] at mem
    have sound := h (.value ⟨id, content⟩) (by rw [spots_scalar scalar, List.mem_singleton])
    rw [mem]
    exact sound

end Value

namespace Dict

variable {d : Dict} {key v : Value}

theorem encodable_iff {id : Option Identity} :
    Value.Encodable ⟨id, .dict d⟩ ↔ d.Encodable :=
  Value.encodable_dict

theorem Encodable.get? (h : d.Encodable) (held : Dict.get? d key = some v) : v.Encodable := by
  rw [Dict.get?, Option.map_eq_some_iff] at held
  obtain ⟨e, found, rfl⟩ := held
  exact (h e (List.mem_of_find?_eq_some found)).2

theorem Encodable.insert (h : d.Encodable) (named : key.NamesMember) (value : v.Encodable) :
    (Dict.insert d key v).Encodable := by
  rcases insert_cases d key with ⟨_, eq⟩ | ⟨l, e, r, rfl, _, eq⟩
  · rw [eq]
    exact List.forall_mem_append.2 ⟨h, List.forall_mem_singleton.2 ⟨named, value⟩⟩
  · rw [eq]
    obtain ⟨before, rest⟩ := List.forall_mem_append.1 h
    obtain ⟨here, after⟩ := List.forall_mem_cons.1 rest
    exact List.forall_mem_append.2 ⟨before, List.forall_mem_cons.2 ⟨⟨here.1, value⟩, after⟩⟩

theorem Encodable.insertText (h : d.Encodable) (name : String) (value : v.Encodable) :
    (Dict.insert d (.string name) v).Encodable :=
  h.insert (Value.namesMember_string name) value

theorem Encodable.eraseAll (h : d.Encodable) (names : List String) :
    (Dict.eraseAll d names).Encodable := by
  induction names generalizing d with
  | nil => exact h
  | cons name names ih => exact ih fun e mem => h e (mem_of_mem_erase mem)

theorem Encodable.merge (h : d.Encodable) {entries : Dict} (more : entries.Encodable) :
    (Dict.merge d entries).Encodable := by
  induction entries generalizing d with
  | nil => exact h
  | cons e entries ih =>
    obtain ⟨first, rest⟩ := List.forall_mem_cons.1 more
    exact ih (h.insert first.1 first.2) rest

theorem Encodable.copied (h : d.Encodable) (occasion : Option Nat) :
    Encodable (Value.copiedEntries occasion d) := by
  intro e mem
  rw [Value.copiedEntries_eq_map, List.mem_map] at mem
  obtain ⟨f, hf, rfl⟩ := mem
  exact ⟨(h f hf).1.copied occasion, (h f hf).2.copied occasion⟩

end Dict

/-! ### Nodes -/

/-- What a node was given has a JSON form: its properties, the options of its data and its inline
collection. -/
structure Node.Encodable (n : Node) : Prop where
  properties : n.properties.Encodable
  options : ∀ r, n.data = .reference r → r.options.Encodable
  collection : ∀ r blob, n.data = .reference r → r.values = some blob → blob.value.Encodable

theorem Node.Encodable.ownEntries {n : Node} (h : n.Encodable) (regular : n.Regular)
    (isRoot : Bool) : (n.ownEntries isRoot).Encodable := by
  obtain ⟨id, entries, eq, _⟩ := regular.spec.properties
  have copies : n.entries.Encodable := by
    have properties := h.properties
    rw [eq, Dict.encodable_iff] at properties
    rw [Node.entries, Node.entriesOn_eq eq]
    exact properties.copied none
  cases isRoot with
  | true => exact copies
  | false => exact copies.eraseAll rootOnlyKeys

theorem DataReference.Regular.encodable {r : DataReference} (h : r.Regular)
    (options : r.options.Encodable) (R : Registry) : Dict.Encodable (r.resolvedIn R) := by
  have payload : Dict.Encodable (r.payload (r.nameIn R)) := by
    cases held : r.values with
    | none =>
      rw [payload_address held]
      exact List.forall_mem_singleton.2
        ⟨Value.namesMember_string _, Value.IsText.encodable (h.source held)⟩
    | some blob =>
      rw [payload_inline held]
      exact List.forall_mem_singleton.2
        ⟨Value.namesMember_string _, Value.encodable_string _⟩
  have extras : r.extras.Encodable := by
    obtain ⟨id, fields, eq, _⟩ := h.options
    rw [eq, Dict.encodable_iff] at options
    rw [DataReference.extras, eq]
    exact options.copied none
  exact payload.merge extras

/-! ### The walk -/

/-- The data object that a scope holds for the facet has a JSON form. -/
def FacetScope.Encodable (s : FacetScope) : Prop :=
  ∀ object, s = .holding object → Dict.Encodable object

theorem FacetScope.Encodable.outside : FacetScope.Encodable .outside :=
  fun _ => nofun

theorem FacetScope.Encodable.waiting : FacetScope.Encodable .waiting :=
  fun _ => nofun

namespace Chart

variable {own entries : Dict} {object : DataObject} {s t : FacetScope} {R : Registry} {v : Value}
  {w : Walk}

theorem encodable_placed (placed : placed object own s = .ok (entries, t)) (hown : own.Encodable)
    (hobject : Dict.Encodable object) (held : s.Encodable) : entries.Encodable ∧ t.Encodable := by
  have data : (Value.dict object).Encodable := Dict.encodable_iff.2 hobject
  have written := hown.insertText "data" data
  cases s with
  | outside =>
    cases placed
    exact ⟨written, .outside⟩
  | waiting =>
    cases placed
    exact ⟨hown, fun _ eq => FacetScope.holding.inj eq ▸ hobject⟩
  | holding first =>
    obtain ⟨met, _, made⟩ := map_eq_ok_iff.1 placed
    cases made
    cases met with
    | true => exact ⟨hown, held⟩
    | false => exact ⟨written, held⟩

theorem encodable_withHeld (hown : own.Encodable) (held : s.Encodable) :
    (withHeld own s).Encodable := by
  cases s with
  | holding object =>
    exact hown.insertText "data" (Dict.encodable_iff.2 (held object rfl))
  | _ => exact hown

theorem encodable_data {n : Node} (regular : n.Regular) (h : n.Encodable) (held : s.Encodable)
    {isRoot : Bool}
    (run : (placeData n.data (.dict (n.ownEntries isRoot))).run ⟨R, s⟩ = .ok (v, w)) :
    (∃ entries, v = .dict entries ∧ entries.Encodable) ∧ w.scope.Encodable := by
  have own := h.ownEntries regular isRoot
  rcases regular.data_cases with ⟨data, _⟩ | ⟨r, data, reference, _⟩
  · rw [data, placeData_empty] at run
    obtain ⟨rfl, rfl⟩ := pure_ok run
    exact ⟨⟨_, rfl, own⟩, held⟩
  · rw [data] at run
    obtain ⟨entries, t, outcome, rfl, rfl⟩ := run_placeData_ok reference run
    obtain ⟨encodable, scope⟩ := encodable_placed outcome own
      (reference.encodable (h.options r data) R) held
    exact ⟨⟨entries, rfl, encodable⟩, scope⟩

/-! ### Bound channels -/

theorem encodable_axisField (axis : String) : (axisField (.string axis)).Encodable :=
  Dict.encodable_iff.2 (List.forall_mem_singleton.2
    ⟨Value.namesMember_string _, Value.encodable_string axis⟩)

theorem encodable_newDefinition (axis : String) : (newDefinition (.string axis)).Encodable := by
  refine Dict.encodable_iff.2 (List.forall_mem_cons.2 ⟨?_, List.forall_mem_singleton.2 ?_⟩)
  · exact ⟨Value.namesMember_string _, encodable_axisField axis⟩
  · exact ⟨Value.namesMember_string _, Value.encodable_string _⟩

end Chart

theorem Dict.Encodable.boundTo {d : Dict} (h : d.Encodable) (axis channel : String) :
    (d.boundTo axis channel).Encodable := by
  refine h.insertText channel ?_
  split
  · rename_i fields held
    have fields_sound := Dict.encodable_iff.1 (h.get? held)
    exact Dict.encodable_iff.2
      (fields_sound.insertText "field" (Chart.encodable_axisField axis))
  · exact Chart.encodable_newDefinition axis

theorem Dict.Encodable.rebound {d : Dict} (h : d.Encodable) (bindings : List (String × String)) :
    (Dict.rebound bindings d).Encodable := by
  induction bindings generalizing d with
  | nil => exact h
  | cons b bindings ih => exact ih (h.boundTo b.1 b.2)

/-! ### Documents -/

namespace Chart

variable {s : FacetScope} {R : Registry} {v : Value} {w : Walk} {isRoot : Bool}

/-- What a walk over a chart gives has a JSON form, and so has what it holds in the end. -/
def GivesEncodable (c : Chart) : Prop :=
  ∀ {isRoot R s v w}, (assemble isRoot c).run ⟨R, s⟩ = .ok (v, w) → s.Encodable →
    v.Encodable ∧ w.scope.Encodable

section Kinds

variable {id : Nat} {n : Node} {children : List Chart} {child : Option Chart} {c : Chart}

theorem encodable_facet_none (regular : n.Regular) (h : n.Encodable) (kind : n.kind = .facet) :
    GivesEncodable (.node id n children none) := by
  intro isRoot R s v w run held
  rw [assemble_facet_none isRoot regular kind] at run
  obtain ⟨_, _, enter, run⟩ := bind_ok run
  obtain ⟨rfl, rfl⟩ := enter_ok enter
  obtain ⟨_, ⟨R₁, s₁⟩, place, run⟩ := bind_ok run
  obtain ⟨⟨entries, rfl, sound⟩, held₁⟩ := encodable_data regular h .waiting place
  rw [run_leaveFacet] at run
  cases run
  exact ⟨Dict.encodable_iff.2 (encodable_withHeld sound held₁), .outside⟩

theorem encodable_facet_some (regular : n.Regular) (h : n.Encodable) (kind : n.kind = .facet)
    (below : c.GivesEncodable) : GivesEncodable (.node id n children (some c)) := by
  intro isRoot R s v w run held
  rw [assemble_facet_some isRoot regular kind] at run
  obtain ⟨_, _, enter, run⟩ := bind_ok run
  obtain ⟨rfl, rfl⟩ := enter_ok enter
  obtain ⟨_, ⟨R₁, s₁⟩, place, run⟩ := bind_ok run
  obtain ⟨⟨entries, rfl, sound⟩, held₁⟩ := encodable_data regular h .waiting place
  obtain ⟨inner, ⟨R₂, s₂⟩, run_inner, run⟩ := bind_ok run
  obtain ⟨inner_sound, held₂⟩ := below run_inner held₁
  rw [withField_dict, pure_bind, run_leaveFacet] at run
  cases run
  have entries_sound := sound.insertText "spec" inner_sound
  exact ⟨Dict.encodable_iff.2 (encodable_withHeld entries_sound held₂), .outside⟩

theorem encodable_repeated_some (grown : n.Grown) (h : n.Encodable) (kind : n.kind = .repeated)
    (all : c.All Node.Grown) (below : c.GivesEncodable) :
    GivesEncodable (.node id n children (some c)) := by
  intro isRoot R s v w run held
  obtain ⟨k, own, before, parts⟩ := repeatRun_of_run grown kind all run
  obtain ⟨inner_sound, held'⟩ := below parts.below held
  rw [Dict.encodable_iff] at inner_sound
  have definitions := Dict.encodable_iff.1 (inner_sound.get? parts.held)
  have rebound : (Value.dict (Dict.rebound n.bindings before)).Encodable :=
    Dict.encodable_iff.2 (definitions.rebound n.bindings)
  have bound := inner_sound.insertText k.channelsKey rebound
  rw [parts.object]
  exact ⟨Dict.encodable_iff.2 ((h.ownEntries grown.regular isRoot).insertText "spec"
    (Dict.encodable_iff.2 bound)), held'⟩

theorem encodable_all {cs : List Chart} (below : ∀ c ∈ cs, GivesEncodable c) {vs : List Value}
    (run : (assembleAll cs).run ⟨R, s⟩ = .ok (vs, w)) (held : s.Encodable) :
    (∀ v ∈ vs, v.Encodable) ∧ w.scope.Encodable := by
  induction cs generalizing R s vs with
  | nil =>
    obtain ⟨rfl, rfl⟩ := pure_ok run
    exact ⟨List.forall_mem_nil _, held⟩
  | cons c cs ih =>
    obtain ⟨here, later⟩ := List.forall_mem_cons.1 below
    rw [assembleAll_cons] at run
    obtain ⟨first, ⟨R₁, s₁⟩, run_first, run⟩ := bind_ok run
    obtain ⟨rest, ⟨R₂, s₂⟩, run_rest, run⟩ := bind_ok run
    obtain ⟨rfl, rfl⟩ := pure_ok run
    obtain ⟨first_sound, held₁⟩ := here run_first held
    obtain ⟨rest_sound, held₂⟩ := ih later run_rest held₁
    exact ⟨List.forall_mem_cons.2 ⟨first_sound, rest_sound⟩, held₂⟩

theorem encodable_concat (regular : n.Regular) (h : n.Encodable) (kind : n.kind.isConcat = true)
    (below : ∀ c ∈ children, GivesEncodable c) : GivesEncodable (.node id n children child) := by
  intro isRoot R s v w run held
  rw [assemble_concat isRoot regular kind] at run
  obtain ⟨vs, ⟨R₁, s₁⟩, run_inner, run⟩ := bind_ok run
  obtain ⟨rfl, rfl⟩ := pure_ok run
  obtain ⟨inner, held₁⟩ := encodable_all below run_inner held
  exact ⟨Dict.encodable_iff.2 ((h.ownEntries regular isRoot).insertText n.kind.name
    (Value.encodable_list.2 inner)), held₁⟩

end Kinds

theorem All.givesEncodable {c : Chart} (grown : c.All Node.Grown) (h : c.All Node.Encodable) :
    c.GivesEncodable := by
  induction grown with
  | @node id n children child node all_children all_child ih_children ih_child =>
    cases h with
    | node given given_children given_child =>
      cases kind : n.kind with
      | unit =>
        intro isRoot R s v w run held
        rw [assemble_unit isRoot node.regular kind] at run
        obtain ⟨⟨entries, rfl, sound⟩, held₁⟩ := encodable_data node.regular given held run
        exact ⟨Dict.encodable_iff.2 sound, held₁⟩
      | facet =>
        cases child with
        | none => exact encodable_facet_none node.regular given kind
        | some c =>
          exact encodable_facet_some node.regular given kind (ih_child c rfl (given_child c rfl))
      | repeated =>
        cases child with
        | none =>
          intro isRoot R s v w run held
          rw [assemble_repeated_none isRoot node.regular kind] at run
          obtain ⟨rfl, rfl⟩ := pure_ok run
          exact ⟨Dict.encodable_iff.2 (given.ownEntries node.regular isRoot), held⟩
        | some c =>
          exact encodable_repeated_some node given kind (all_child c rfl)
            (ih_child c rfl (given_child c rfl))
      | layer | hconcat | vconcat =>
        exact encodable_concat node.regular given (by rw [kind]; rfl) fun c mem =>
          ih_children c mem (given_children c mem)

/-- The collections of a chart have JSON forms if those of its nodes do. -/
theorem All.encodable_blobs {c : Chart} (h : c.All Node.Encodable) :
    ∀ blob ∈ c.blobs, blob.value.Encodable := by
  intro blob mem
  obtain ⟨n, visited, brings⟩ := List.mem_filterMap.1 mem
  obtain ⟨r, reference, held⟩ := Option.bind_eq_some_iff.1 brings
  cases h.of_mem_visited n visited with
  | @node id n children child node _ _ =>
    refine node.collection r blob ?_ held
    rw [reference?] at reference
    split at reference
    · rename_i r' data
      split at reference
      · cases reference
        exact data
      · cases reference
    · cases reference

/-- A compiled document has a JSON form if what the nodes of its chart were given has one. -/
theorem Grown.encodable_document {c : Chart} {d : Document} (grown : c.Grown)
    (h : c.All Node.Encodable) (compiled : c.compile = .ok d) : d.toValue.Encodable := by
  have shown := grown.built.shown compiled
  obtain ⟨entries, root, absent⟩ := shown.entries
  obtain ⟨w, run, _⟩ := compile_ok compiled
  obtain ⟨sound, _⟩ := grown.all.givesEncodable h run .outside
  rw [root, Dict.encodable_iff] at sound
  by_cases none : d.datasets.blobs = []
  · rw [Document.toValue_of_empty root none]
    exact Dict.encodable_iff.2 sound
  · have table : (datasetTable d.datasets.blobs).Encodable := by
      intro e mem
      obtain ⟨⟨blob, place⟩, listed, rfl⟩ := List.mem_map.1 mem
      have met : blob ∈ c.blobs := by
        have among := List.fst_mem_of_mem_zipIdx listed
        rw [shown.registry, Registry.blobs_addAll_empty] at among
        exact Shared.mem_of_mem_firsts among
      exact ⟨Value.namesMember_string _, h.encodable_blobs blob met⟩
    rw [Document.toValue_of_nonempty root absent none]
    exact Dict.encodable_iff.2 (List.forall_mem_append.2 ⟨sound,
      List.forall_mem_singleton.2 ⟨Value.namesMember_string _, Dict.encodable_iff.2 table⟩⟩)

end Chart

/-- A value is refused as JSON for its first fault and for nothing else, at every indentation; what
is said of the fault depends on the indentation only where the type of a key is named; and a
compiled chart is refused for nothing that it was not given. -/
theorem refused_for_first_fault {fw : Framework} (documented : fw.Documented) :
    (∀ v : Value, v.RefusedByFirstFault fw) ∧
    (∀ (e : EncodeError) (i j : Option Int),
      ((i = none ↔ j = none) ∨ ∀ key, e = .badKey key → key.hasFamily = false) →
        e.message (.ofIndent i) = e.message (.ofIndent j)) ∧
    ∀ (c : Chart) (d : Document), c.Grown → c.All Node.Encodable → c.compile = .ok d →
      (∀ indent, ∃ text, c.toJson fw (.ofIndent indent) = .ok text) ∧
        ∀ id, ∃ text, c.toScript fw id = .ok text := by
  refine ⟨Value.refusedByFirstFault documented, fun e i j => EncodeError.message_ofIndent, ?_⟩
  intro c d grown encodable compiled
  have sound := grown.encodable_document encodable compiled
  have value : c.compiled = .ok d.toValue := by rw [Chart.compiled, compiled]
  refine ⟨fun indent => ?_, fun id => ?_⟩
  · obtain ⟨text, written⟩ := sound.toJson documented (.ofIndent indent)
    refine ⟨text, ?_⟩
    rw [Chart.toJson, value]
    show (d.toValue.toJson fw (.ofIndent indent)).mapError _ = _
    rw [written]
    rfl
  · obtain ⟨text, written⟩ := sound.toScript documented id
    refine ⟨text, ?_⟩
    rw [Chart.toScript, value]
    show (d.toValue.toScript fw id).mapError _ = _
    rw [written]
    rfl

/-- A unit repeated over a field, with an encoded channel, a title, a name for its rows and numbers
that are no numbers among them. -/
def writtenSteps : List Step :=
  let rows : Shared := ⟨.object 0, .list [.tuple [⟨none, .float .nan⟩, .null]]⟩
  let channel : Shared := ⟨.object 1, .string "y"⟩
  let fields : Shared := ⟨.object 2, .list ["a"]⟩
  let day : Shared := ⟨.object 3, .date ⟨2020, 1, 1⟩⟩
  [.unit rows [("name", day)], .around .repeated [⟨0, .unit⟩],
    .call 1 (.bindAxis .row channel.value fields.value)]

theorem writtenSteps_checked : ∀ step ∈ writtenSteps, step.Checked := by
  simp only [writtenSteps, List.forall_mem_cons]
  exact ⟨Step.checked_unit _ (List.nodup_singleton _), Step.checked_around _ _,
    Step.checked_bindAxis _ _ _ _, List.forall_mem_nil _⟩

theorem writtenSteps_proper : (Session.start .unset).Proper writtenSteps := by
  refine ⟨.make (Store.none_stand _), .make fun m hm => ?_, .call 1 (Store.none_stand _), trivial⟩
  cases List.mem_singleton.1 hm
  exact ⟨_, rfl, rfl⟩

theorem refused_for_first_fault_of_written :
    (∃ text, (Value.dict [("a", .list [.int 1])]).toJson .standard (.ofIndent (some 2)) =
        .ok text) ∧
      (Value.dict [("a", .list [.int 1, ⟨none, .bytes []⟩]), (.tuple [], .null)]).toJson
        .standard (.ofIndent none) = .error (.noForm "bytes") ∧
      ∃ c d, ((Session.start .unset).run writtenSteps).store.chart? 1 = some c ∧
        c.All Node.Encodable ∧ c.compile = .ok d ∧
          (∃ text, c.toJson .standard (.ofIndent (some 2)) = .ok text) ∧
            ∃ text, c.toScript .standard (.value "chart") = .ok text := by
  have documented := Framework.standard_documented
  have encodable {v : Value} (written : ∃ j, v.encode .standard = .ok j) : v.Encodable :=
    (Value.encodable_iff documented).2 written
  obtain ⟨values, _, charts⟩ := refused_for_first_fault documented
  refine ⟨((values _).accepted _).2 (encodable ⟨_, rfl⟩),
    ((values _).json _ _).2 ((Value.firstFault_iff documented).2 rfl), ?_⟩
  obtain ⟨c, found, d, compiled, sound⟩ : ∃ c,
      ((Session.start .unset).run writtenSteps).store.chart? 1 = some c ∧ ∃ d, c.compile = .ok d ∧
        c.All Node.Encodable := by
    refine ⟨_, rfl, _, rfl, ?_⟩
    refine .node ⟨encodable ⟨_, rfl⟩, fun _ => nofun, fun _ _ => nofun⟩
      (fun _ => nofun) fun c child => ?_
    cases child
    refine .node ⟨encodable ⟨_, rfl⟩, fun r data => ?_, fun r blob data held => ?_⟩
      (fun _ => nofun) (fun _ => nofun)
    · cases data
      exact encodable ⟨_, rfl⟩
    · cases data
      cases held
      exact encodable ⟨_, rfl⟩
  have grown : c.Grown :=
    ⟨.unset, writtenSteps, 1, writtenSteps_checked, writtenSteps_proper, found⟩
  obtain ⟨json, script⟩ := charts c d grown sound compiled
  exact ⟨c, d, found, sound, compiled, json _, script _⟩

/-- A dictionary with a date among its keys. -/
def dayDocument : Value :=
  .dict [(⟨none, .date ⟨2020, 1, 1⟩⟩, .int 1)]

/-- What is said of a refused key can depend on the indentation. -/
theorem not_always_same_message :
    ∃ e, dayDocument.toJson .standard (.ofIndent none) = .error e ∧
      dayDocument.toJson .standard (.ofIndent (some 2)) = .error e ∧
      e.message (.ofIndent none) ≠ e.message (.ofIndent (some 2)) := by
  refine ⟨.badKey ⟨none, .date ⟨2020, 1, 1⟩⟩, rfl, rfl, ?_⟩
  delta EncodeError.message
  dsimp only
  decide

end ChartTree
