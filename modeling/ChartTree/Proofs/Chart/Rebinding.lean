import Mathlib.Data.List.Nodup
import ChartTree.Proofs.Chart.Binding
import ChartTree.Proofs.Chart.Trace
import ChartTree.Proofs.Node.Fluent

/-!
# Channel definitions after binding

What becomes of the channel definitions in a repeated node once the axes around it are bound to
their channels one after the other. A definition takes the field of the axis that is bound to its
channel last, and a channel without a definition gets one behind the others. Whether the axes can be
bound at all does not depend on the definitions.
-/

namespace ChartTree

/-- The axes of a node with the channels that they are bound to, in order. -/
def Node.bindings (n : Node) : List (String × String) :=
  n.axes.filterMap fun axis => (n.channelOf axis).text?.map fun channel => (axis, channel)

/-- The axis that is bound to a channel last. -/
def lastAxis (bindings : List (String × String)) (channel : String) : Option String :=
  (bindings.reverse.find? fun b => b.2 = channel).map Prod.fst

theorem lastAxis_concat (bindings : List (String × String)) (axis channel other : String) :
    lastAxis (bindings ++ [(axis, channel)]) other =
      if channel = other then some axis else lastAxis bindings other := by
  rw [lastAxis, List.reverse_append, List.reverse_singleton, List.singleton_append,
    List.find?_cons]
  by_cases here : channel = other
  · simp [here]
  · simp [here, lastAxis]

theorem lastAxis_eq_none_iff {bindings : List (String × String)} {channel : String} :
    lastAxis bindings channel = none ↔ channel ∉ bindings.map Prod.snd := by
  simp only [lastAxis, Option.map_eq_none_iff, List.find?_eq_none, List.mem_reverse,
    decide_eq_true_eq, List.mem_map, not_exists, not_and]

namespace Dict

/-- The channels without a definition that axes are bound to, each of them once. -/
def newChannels (bindings : List (String × String)) (definitions : Dict) : List String :=
  ((bindings.map Prod.snd).filter fun channel =>
    !definitions.hasKey (.string channel)).eraseDups

/-- Channel definitions after axes were bound to channels: the channels that had a definition keep
their order, those that had none come behind them, and the definition of a bound channel has the
field of the last axis that is bound to it. -/
structure Rebound (bindings : List (String × String)) (before after : Dict) : Prop where
  keys : after.keys = before.keys ++ (newChannels bindings before).map Value.string
  unbound : ∀ channel, lastAxis bindings channel = none →
    get? after (.string channel) = get? before (.string channel)
  existing : ∀ channel axis fields, lastAxis bindings channel = some axis →
    get? before (.string channel) = some (.dict fields) → get? after (.string channel) =
      some (.dict (insert fields (.string "field") (Chart.axisField (.string axis))))
  new : ∀ channel axis, lastAxis bindings channel = some axis →
    get? before (.string channel) = none →
      get? after (.string channel) = some (Chart.newDefinition (.string axis))

/-! ### Binding one axis -/

section Binding

variable {d : Dict} {axis channel : String}

/-- The definitions with that of one channel bound to an axis. -/
def boundTo (d : Dict) (axis channel : String) : Dict :=
  insert d (.string channel) <| match get? d (.string channel) with
    | some ⟨_, .dict fields⟩ =>
      .dict (insert fields (.string "field") (Chart.axisField (.string axis)))
    | _ => Chart.newDefinition (.string axis)

theorem get?_boundTo_of_ne {other : String} (differ : channel ≠ other) :
    get? (d.boundTo axis channel) (.string other) = get? d (.string other) :=
  get?_insert_of_ne d differ _

theorem get?_boundTo_of_held {fields : Dict}
    (held : get? d (.string channel) = some (.dict fields)) :
    get? (d.boundTo axis channel) (.string channel) =
      some (.dict (insert fields (.string "field") (Chart.axisField (.string axis)))) := by
  rw [boundTo, held]
  exact get?_insert_self d channel _

theorem get?_boundTo_of_absent (absent : get? d (.string channel) = none) :
    get? (d.boundTo axis channel) (.string channel) =
      some (Chart.newDefinition (.string axis)) := by
  rw [boundTo, absent]
  exact get?_insert_self d channel _

/-- Of two axes that are bound to one channel the later one takes the field. -/
theorem get?_boundTo_of_new {earlier : String}
    (held : get? d (.string channel) = some (Chart.newDefinition (.string earlier))) :
    get? (d.boundTo axis channel) (.string channel) =
      some (Chart.newDefinition (.string axis)) := by
  rw [get?_boundTo_of_held held]
  exact congrArg (some ∘ Value.dict) (insert_cons_of_content rfl)

theorem keys_insert_of_held {v w : Value} (held : get? d (.string channel) = some v) :
    keys (insert d (.string channel) w) = keys d := by
  obtain ⟨l, e, r, rfl, before, content, _⟩ := exists_split held
  rw [insert_split before content]
  simp [keys]

theorem keys_boundTo : keys (d.boundTo axis channel) =
    if d.hasKey (.string channel) then keys d else keys d ++ [.string channel] := by
  rw [boundTo, hasKey]
  cases held : get? d (.string channel) with
  | none =>
    rw [insert_of_absent held]
    simp [keys]
  | some v => exact keys_insert_of_held held

theorem Nested.get? {v : Value} (nested : d.Nested) (held : get? d (.string channel) = some v) :
    ∃ fields, v = .dict fields := by
  obtain ⟨l, e, r, rfl, _, _, rfl⟩ := exists_split held
  exact nested e (List.mem_append_right _ (List.mem_cons_self ..))

theorem Nested.boundTo (nested : d.Nested) : (d.boundTo axis channel).Nested := by
  intro e mem
  rcases mem_insert mem with old | ⟨_, value, _⟩
  · exact nested e old
  · rw [value]
    split
    · exact ⟨_, rfl⟩
    · exact ⟨_, rfl⟩

end Binding

/-! ### Binding all axes -/

/-- The definitions after axes were bound to channels one after the other. -/
def rebound (bindings : List (String × String)) (d : Dict) : Dict :=
  bindings.foldl (fun d b => d.boundTo b.1 b.2) d

theorem rebound_concat (bindings : List (String × String)) (d : Dict) (axis channel : String) :
    rebound (bindings ++ [(axis, channel)]) d = (rebound bindings d).boundTo axis channel := by
  rw [rebound, List.foldl_append]
  rfl

theorem newChannels_concat (bindings : List (String × String)) (d : Dict) (axis channel : String) :
    newChannels (bindings ++ [(axis, channel)]) d =
      if d.hasKey (.string channel) ∨ channel ∈ bindings.map Prod.snd then newChannels bindings d
      else newChannels bindings d ++ [channel] := by
  rw [newChannels, List.map_append, List.filter_append]
  by_cases held : d.hasKey (.string channel) = true
  · rw [if_pos (.inl held), List.map_singleton, List.filter_cons_of_neg (by simp [held]),
      List.filter_nil, List.append_nil]
    rfl
  · rw [List.map_singleton, List.filter_cons_of_pos (by simp [held]), List.filter_nil,
      eraseDups_concat]
    by_cases earlier : channel ∈ bindings.map Prod.snd
    · rw [if_pos (List.mem_filter.2 ⟨earlier, by simp [held]⟩), if_pos (.inr earlier)]
      rfl
    · rw [if_neg (mt (fun mem => (List.mem_filter.1 mem).1) earlier),
        if_neg (not_or.2 ⟨held, earlier⟩)]
      rfl

/-- A channel has a definition in the end if it had one or if an axis is bound to it. -/
theorem Rebound.hasKey {bindings : List (String × String)} {before after : Dict}
    (h : Rebound bindings before after) (nested : before.Nested) (channel : String) :
    after.hasKey (.string channel) = true ↔
      before.hasKey (.string channel) = true ∨ channel ∈ bindings.map Prod.snd := by
  rw [Dict.hasKey, Dict.hasKey]
  cases last : lastAxis bindings channel with
  | none =>
    have absent := lastAxis_eq_none_iff.1 last
    rw [h.unbound channel last]
    simp only [absent, or_false]
  | some axis =>
    have bound : channel ∈ bindings.map Prod.snd := by
      refine Decidable.not_not.1 fun absent => ?_
      rw [lastAxis_eq_none_iff.2 absent] at last
      cases last
    simp only [bound, or_true, iff_true]
    cases held : get? before (.string channel) with
    | none => rw [h.new channel axis last held, Option.isSome_some]
    | some v =>
      obtain ⟨fields, rfl⟩ := nested.get? held
      rw [h.existing channel axis fields last held, Option.isSome_some]

theorem rebound_spec (bindings : List (String × String)) {before : Dict} (nested : before.Nested) :
    (rebound bindings before).Nested ∧ Rebound bindings before (rebound bindings before) := by
  induction bindings using List.reverseRecOn with
  | nil =>
    refine ⟨nested, ?_, fun _ _ => rfl, fun _ _ _ none => (nomatch none),
      fun _ _ none => (nomatch none)⟩
    rw [newChannels, List.map_nil, List.filter_nil]
    exact (List.append_nil _).symm
  | append_singleton bindings b ih =>
    obtain ⟨axis, channel⟩ := b
    obtain ⟨nested', earlier⟩ := ih
    rw [rebound_concat]
    generalize rebound bindings before = middle at nested' earlier
    refine ⟨nested'.boundTo, ?_, fun other none => ?_, fun other last fields bound held => ?_,
      fun other last bound absent => ?_⟩
    · rw [keys_boundTo, newChannels_concat, earlier.keys]
      simp only [earlier.hasKey nested]
      split
      · rfl
      · rw [List.map_append, List.append_assoc, List.map_singleton]
    · rw [lastAxis_concat] at none
      split at none
      · cases none
      · rename_i differ
        rw [get?_boundTo_of_ne differ, earlier.unbound other none]
    · rw [lastAxis_concat] at bound
      split at bound
      · rename_i same
        subst same
        cases bound
        cases before_last : lastAxis bindings channel with
        | none =>
          exact get?_boundTo_of_held ((earlier.unbound channel before_last).trans held)
        | some other =>
          rw [get?_boundTo_of_held (earlier.existing channel other fields before_last held),
            insert_insert_self]
      · rename_i differ
        rw [get?_boundTo_of_ne differ, earlier.existing other last fields bound held]
    · rw [lastAxis_concat] at bound
      split at bound
      · rename_i same
        subst same
        cases bound
        cases before_last : lastAxis bindings channel with
        | none => exact get?_boundTo_of_absent ((earlier.unbound channel before_last).trans absent)
        | some other => exact get?_boundTo_of_new (earlier.new channel other before_last absent)
      · rename_i differ
        rw [get?_boundTo_of_ne differ, earlier.new other last bound absent]

example : rebound [("column", "x"), ("row", "y")]
      (ofFields [("x", .dict (ofFields [("field", "a"), ("type", "nominal")]))]) =
    ofFields [("x", .dict (ofFields [("field", Chart.axisField "column"), ("type", "nominal")])),
      ("y", Chart.newDefinition "row")] := rfl

theorem insert_of_held {d : Dict} {key : String} {v : Value}
    (held : get? d (.string key) = some v) : insert d (.string key) v = d := by
  obtain ⟨l, e, r, rfl, before, content, rfl⟩ := exists_split held
  exact insert_split before content

end Dict

/-! ### What the walk binds -/

namespace Chart

/-- Why axes cannot be bound to their channels in a node of a kind: the first channel that has no
place there. -/
def misplaced? (kind : Kind) (bindings : List (String × String)) : Option CompileError :=
  bindings.findSome? fun b => axisError? kind (.string b.2)

theorem definitionsWith_eq (axis channel : String) {before : Dict} (nested : before.Nested) :
    definitionsWith (.string channel) (.string axis) (some (.dict before)) =
      .ok (.dict (before.boundTo axis channel)) := by
  have text : (Value.string channel).IsText := ⟨channel, rfl⟩
  show (do
    let held ← Dict.lookUp? before (.string channel)
    let definition ← boundDefinition (.string axis) held
    pure (Value.dict (Dict.insert before (.string channel) definition))) = _
  rw [lookUp?_text text, Dict.boundTo]
  cases held : Dict.get? before (.string channel) with
  | none => rfl
  | some v =>
    obtain ⟨fields, rfl⟩ := nested.get? held
    rfl

variable {kind : Kind} {id : Option Identity} {entries own before : Dict}

theorem bindAxis_ofString {axis channel : String}
    (bound : Dict.get? entries (.string axis) = some (.string channel))
    (held : Dict.get? own (.string kind.channelsKey) = some (.dict before))
    (nested : before.Nested) :
    bindAxisApart kind ⟨id, .dict entries⟩ (.dict own) (.string axis) =
      match axisError? kind (.string channel) with
      | some e => .error e
      | none => .ok (.dict (Dict.insert own (.string kind.channelsKey)
          (.dict (before.boundTo axis channel)))) := by
  have found : (Dict.get? entries (.string axis)).getD .null = .string channel := by
    rw [bound]
    rfl
  rw [bindAxisApart, boundChannel_eq kind found (.inr ⟨channel, rfl⟩)]
  cases axisError? kind (.string channel) with
  | some e => rfl
  | none =>
    show (withBindingApart kind.channelsKey (.string channel) (.string axis)
      (.dict own)).mapError _ = _
    rw [withBindingApart_dict, held, definitionsWith_eq axis channel nested]
    rfl

/-- Whether axes can be bound depends on the channels alone, and the definitions that they leave on
the definitions before. -/
theorem bindAll_eq {bindings : List (String × String)}
    (bound : ∀ b ∈ bindings, Dict.get? entries (.string b.1) = some (.string b.2))
    (held : Dict.get? own (.string kind.channelsKey) = some (.dict before))
    (nested : before.Nested) :
    (bindings.map fun b => Value.string b.1).foldlM (bindAxisApart kind ⟨id, .dict entries⟩)
        (.dict own) =
      match misplaced? kind bindings with
      | some e => .error e
      | none => .ok (.dict (Dict.insert own (.string kind.channelsKey)
          (.dict (Dict.rebound bindings before)))) := by
  induction bindings generalizing own before with
  | nil => exact congrArg (Except.ok ∘ Value.dict) (Dict.insert_of_held held).symm
  | cons b bindings ih =>
    obtain ⟨first, rest⟩ := List.forall_mem_cons.1 bound
    rw [List.map_cons, List.foldlM_cons, bindAxis_ofString first held nested, misplaced?,
      List.findSome?_cons]
    cases axisError? kind (.string b.2) with
    | some e => rfl
    | none =>
      refine (ih rest (Dict.get?_insert_self ..) nested.boundTo).trans ?_
      rw [Dict.insert_insert_self]
      rfl

end Chart

/-! ### The axes of a grown repeat -/

theorem AxisBinding.get?_underAxes (part : AxisBinding → Value) {bindings : List AxisBinding}
    (distinct : (bindings.map axis).Nodup) {b : AxisBinding} (mem : b ∈ bindings) :
    Dict.get? (underAxes part bindings) (.string b.axis.name) = some (part b) := by
  induction bindings with
  | nil => cases mem
  | cons c rest ih =>
    obtain ⟨absent, rest_distinct⟩ := List.nodup_cons.1 distinct
    rcases List.mem_cons.1 mem with rfl | mem
    · exact Dict.get?_of_content rfl
    · have differ : (Value.string c.axis.name).content ≠ .string b.axis.name := fun same =>
        absent (Axis.name_injective (Content.string.inj same) ▸ List.mem_map_of_mem mem)
      exact (Dict.get?_of_content_ne differ).trans (ih rest_distinct mem)

namespace Node.Grown

variable {n : Node} (h : n.Grown) (kind : n.kind = .repeated)

include h kind

/-- Every axis of a grown repeat is bound to one channel. -/
theorem bindings_eq : n.bindings.map Prod.fst = n.axes ∧ (n.bindings.map Prod.fst).Nodup ∧
    ∃ entries, n.repeatChannels = .dict entries ∧
      ∀ b ∈ n.bindings, Dict.get? entries (.string b.1) = some (.string b.2) := by
  obtain ⟨_, _, bindings, shaped⟩ := h.shaped.spec
  have found : ∀ b ∈ bindings, Dict.get? (AxisBinding.boundChannels bindings)
      (.string b.axis.name) = some (.string b.channel.storedName) :=
    fun b mem => AxisBinding.get?_underAxes _ shaped.distinct mem
  have pairs : n.bindings = bindings.map fun b => (b.axis.name, b.channel.storedName) := by
    rw [Node.bindings, axes_eq shaped kind, List.filterMap_map]
    refine List.filterMap_eq_map_iff_forall_eq_some.2 fun b mem => ?_
    have channel : n.channelOf b.axis.name = .string b.channel.storedName := by
      rw [channelOf, shaped.channels]
      exact congrArg (Option.getD · .null) (found b mem)
    show ((n.channelOf b.axis.name).text?).map _ = _
    rw [channel]
    rfl
  refine ⟨?_, ?_, _, shaped.channels, ?_⟩
  · rw [pairs, List.map_map, axes_eq shaped kind]
    rfl
  · rw [pairs, List.map_map]
    show (bindings.map (Axis.name ∘ AxisBinding.axis)).Nodup
    rw [← List.map_map]
    exact List.Nodup.map (fun _ _ same => Axis.name_injective same) shaped.distinct
  · rw [pairs]
    exact List.forall_mem_map.2 found

/-- A grown repeat binds its axes in an object with definitions, unless a channel has no place
there. -/
theorem bindAxes_eq (isRoot : Bool) {k : Kind} {own before : Dict}
    (held : Dict.get? own (.string k.channelsKey) = some (.dict before)) (nested : before.Nested) :
    Chart.bindAxesApart (.dict (Dict.insert (n.ownEntries isRoot) (.string "spec") (.dict own)))
        n.repeatChannels k (.dict own) =
      match Chart.misplaced? k n.bindings with
      | some e => .error e
      | none => .ok (.dict (Dict.insert own (.string k.channelsKey)
          (.dict (Dict.rebound n.bindings before)))) := by
  obtain ⟨axes, _, entries, channels, bound⟩ := h.bindings_eq kind
  rw [Chart.bindAxesApart, h.rewired.axesOf_eq isRoot kind, channels, ← axes, List.map_map]
  exact Chart.bindAll_eq bound held nested

end Node.Grown

/-! ### Objects of repeats -/

theorem Node.Grown.channels {n : Node} (h : n.Grown) (isRoot : Bool)
    (carries : n.kind.carriesChannels = true) : ∃ definitions,
    Dict.get? (n.ownEntries isRoot) (.string n.kind.channelsKey) = some (.dict definitions) ∧
      definitions.Nested := by
  obtain ⟨l, definitions, r, split, fresh, nested⟩ := h.rewired.ownEntries_split isRoot carries
  refine ⟨definitions, ?_, nested⟩
  rw [split]
  exact Dict.get?_split (e := (.string n.kind.channelsKey, .dict definitions)) fresh rfl

theorem Kind.canRepeat_iff {k : Kind} : k.canRepeat = true ↔ k = .unit ∨ k = .facet := by
  cases k <;> decide

namespace Chart

variable {id : Nat} {n : Node} {children : List Chart} {child : Option Chart} {isRoot : Bool}
  {v : Value} {w u : Walk}

/-- The object of a unit or a facet has the channel definitions of the node. -/
theorem channels_of_run (h : n.Regular) (may : n.kind.canRepeat = true)
    (run : (assemble isRoot (.node id n children child)).run w = .ok (v, u)) :
    ∃ own, v = .dict own ∧ Dict.get? own (.string n.kind.channelsKey) =
      Dict.get? (n.ownEntries isRoot) (.string n.kind.channelsKey) := by
  obtain ⟨R, s⟩ := w
  have apart : "data" ≠ n.kind.channelsKey ∧ "spec" ≠ n.kind.channelsKey := by
    cases n.kind <;> decide
  rcases Kind.canRepeat_iff.1 may with kind | kind
  · rw [assemble_unit isRoot h kind] at run
    obtain ⟨_, ⟨entries, rfl, others⟩, _⟩ := walked_data h isRoot run id children child
    exact ⟨entries, rfl, others _ apart.1⟩
  · cases child with
    | none =>
      rw [assemble_facet_none isRoot h kind] at run
      obtain ⟨_, ⟨R₁, s₁⟩, _, run⟩ := bind_ok run
      obtain ⟨_, ⟨R₂, s₂⟩, place, run⟩ := bind_ok run
      obtain ⟨_, ⟨entries, rfl, others⟩, _⟩ := walked_data h isRoot place id children none
      rw [run_leaveFacet] at run
      cases run
      exact ⟨_, rfl, (get?_withHeld entries s₂ _ apart.1).trans (others _ apart.1)⟩
    | some c =>
      rw [assemble_facet_some isRoot h kind] at run
      obtain ⟨_, ⟨R₁, s₁⟩, _, run⟩ := bind_ok run
      obtain ⟨_, ⟨R₂, s₂⟩, place, run⟩ := bind_ok run
      obtain ⟨_, ⟨entries, rfl, others⟩, _⟩ := walked_data h isRoot place id children none
      obtain ⟨inner, ⟨R₃, s₃⟩, _, run⟩ := bind_ok run
      rw [withField_dict, pure_bind, run_leaveFacet] at run
      cases run
      refine ⟨_, rfl, (get?_withHeld _ s₃ _ apart.1).trans ?_⟩
      rw [Dict.get?_insert_of_ne _ apart.2, others _ apart.1]

/-- Once the node in it went through, a grown repeat has the object of that node with its axes
bound, unless a channel has no place there. -/
theorem run_repeated (h : n.Grown) (kind : n.kind = .repeated) {c : Chart}
    (regular : c.All Node.Regular) {k : Kind} (found : c.kindOf = .ok k)
    (may : k.canRepeat = true) {own before : Dict}
    (below : (assemble false c).run w = .ok (.dict own, u))
    (held : Dict.get? own (.string k.channelsKey) = some (.dict before)) (nested : before.Nested) :
    (assemble isRoot (.node id n children (some c))).run w =
      match misplaced? k n.bindings with
      | some e => .error e
      | none => .ok (.dict (Dict.insert (n.ownEntries isRoot) (.string "spec")
          (.dict (Dict.insert own (.string k.channelsKey)
            (.dict (Dict.rebound n.bindings before))))), u) := by
  rw [assemble_repeated_some isRoot h.regular kind regular, found, reached_ok, pure_bind, may,
    if_pos rfl, StateT.run_bind, below]
  show (do
    let bound ← liftM (bindAxesApart (.dict (Dict.insert (n.ownEntries isRoot) (.string "spec")
      (.dict own))) n.repeatChannels k (.dict own))
    pure (.dict (Dict.insert (n.ownEntries isRoot) (.string "spec") bound)) :
      Walker Value).run u = _
  rw [h.bindAxes_eq kind isRoot held nested]
  cases misplaced? k n.bindings <;> rfl

/-- What the object of a grown repeat that went through is made of. -/
structure RepeatRun (isRoot : Bool) (n : Node) (c : Chart) (k : Kind) (own before : Dict)
    (w u : Walk) (v : Value) : Prop where
  kind : c.kindOf = .ok k
  may : k.canRepeat = true
  below : (assemble false c).run w = .ok (.dict own, u)
  held : Dict.get? own (.string k.channelsKey) = some (.dict before)
  nested : before.Nested
  placed : misplaced? k n.bindings = none
  object : v = .dict (Dict.insert (n.ownEntries isRoot) (.string "spec")
    (.dict (Dict.insert own (.string k.channelsKey) (.dict (Dict.rebound n.bindings before)))))

theorem repeatRun_of_run (h : n.Grown) (kind : n.kind = .repeated) {c : Chart}
    (all : c.All Node.Grown)
    (run : (assemble isRoot (.node id n children (some c))).run w = .ok (v, u)) :
    ∃ k own before, RepeatRun isRoot n c k own before w u v := by
  have parts := run
  have regular : c.All Node.Regular := all.imp fun _ node => node.regular
  rw [assemble_repeated_some isRoot h.regular kind regular] at parts
  obtain ⟨k, t, reach, rest⟩ := bind_ok parts
  obtain ⟨found, same⟩ := reached_inv reach
  subst same
  cases may : k.canRepeat with
  | false =>
    rw [may] at rest
    cases rest
  | true =>
    rw [may, if_pos rfl] at rest
    obtain ⟨inner, t, below, rest⟩ := bind_ok rest
    obtain ⟨_, _, lifted, last⟩ := bind_ok rest
    obtain ⟨-, rfl⟩ := lift_ok lifted
    obtain ⟨-, rfl⟩ := pure_ok last
    cases all with
    | @node id' m cs c? grown _ _ =>
      have same : m.kind = k := Except.ok.inj found
      subst same
      have carries : m.kind.carriesChannels = true := by
        revert may
        cases m.kind <;> decide
      obtain ⟨own, rfl, kept⟩ := channels_of_run grown.regular may below
      obtain ⟨before, held, nested⟩ := grown.channels false carries
      have equation := run.symm.trans
        (run_repeated h kind regular found may below (kept.trans held) nested)
      cases placed : misplaced? m.kind n.bindings with
      | some e =>
        rw [placed] at equation
        cases equation
      | none =>
        rw [placed] at equation
        exact ⟨m.kind, own, before, found, may, below, kept.trans held, nested, placed,
          congrArg Prod.fst (Except.ok.inj equation)⟩

end Chart

end ChartTree
