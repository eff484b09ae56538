import ChartTree.Proofs.Chart.Repeats
import ChartTree.Proofs.Session.Grown

/-!
# Binding the axes of a repeat

What binding an axis does to the channel definitions in the object of a repeated node: it sets the
field of a definition that is there or adds a definition at the end. The axes of a repeat are bound
one after the other, up to the first that has no place in a facet.
-/

namespace ChartTree

/-- A computation ends with the first error of a list, or well if the list is empty. -/
def Ends {ε α : Type} (errors : List ε) (x : Except ε α) (P : α → Prop) : Prop :=
  match errors with
  | [] => ∃ a, x = .ok a ∧ P a
  | e :: _ => x = .error e

theorem Ends.bind {ε α β : Type} {errors more : List ε} {x : Except ε α} {f : α → Except ε β}
    {P : α → Prop} {Q : β → Prop} (h : Ends errors x P) (next : ∀ a, P a → Ends more (f a) Q) :
    Ends (errors ++ more) (x >>= f) Q := by
  cases errors with
  | nil =>
    obtain ⟨a, rfl, ha⟩ := h
    exact next a ha
  | cons e errors =>
    have failed : x = .error e := h
    rw [failed]
    exact rfl

theorem Ends.imp {ε α : Type} {errors : List ε} {x : Except ε α} {P Q : α → Prop}
    (h : Ends errors x P) (weaker : ∀ a, P a → Q a) : Ends errors x Q := by
  cases errors with
  | nil =>
    obtain ⟨a, eq, ha⟩ := h
    exact ⟨a, eq, weaker a ha⟩
  | cons e errors => exact h

/-! ### Nodes whose places for other nodes were written -/

/-- A node with the kind, the properties and the data of a grown one, and with nodes and channels
that may have been written behind the setters. -/
structure Node.Rewired (n : Node) : Prop where
  grown : ∃ m : Node, m.Grown ∧ n.kind = m.kind ∧ n.properties = m.properties ∧ n.data = m.data
  channels : ∃ id entries, n.repeatChannels = ⟨id, .dict entries⟩ ∧
    ∀ e ∈ entries, (∃ a : Axis, e.1.content = .string a.name) ∧ e.2.IsText
  children : ∃ id, ∃ nodes : List NodeRef, n.children = ⟨id, .list (nodes.map Value.ofNode)⟩
  child : n.child = .null ∨ ∃ m, n.child = .ofNode m

namespace Node

variable {n : Node}

/-- The axes that a node repeats, in order. -/
def axes (n : Node) : List String :=
  ((n.properties.field? "repeat").bind Value.names?).getD []

/-- The channel that an axis is bound to, the absent value if there is none. -/
def channelOf (n : Node) (axis : String) : Value :=
  (n.repeatChannels.field? axis).getD .null

theorem Grown.rewired (h : n.Grown) : n.Rewired where
  grown := ⟨n, h, rfl, rfl, rfl⟩
  channels := by
    obtain ⟨entries, definitions, bindings, shaped⟩ := h.shaped.spec
    refine ⟨none, _, shaped.channels, fun e he => ?_⟩
    obtain ⟨b, _, rfl⟩ := List.mem_map.1 he
    exact ⟨⟨b.axis, rfl⟩, _, rfl⟩
  children := h.regular.children
  child := h.regular.child

theorem Rewired.regular (h : n.Rewired) : n.Regular where
  spec := by
    obtain ⟨m, grown, kind, properties, data⟩ := h.grown
    obtain ⟨id, entries, channels, texts⟩ := h.channels
    have regular := grown.regular.spec
    refine ⟨?_, ?_, ⟨id, entries, channels, fun e he => (texts e he).2⟩, ?_, ?_⟩
    · rw [properties]
      exact regular.properties
    · rw [kind, data]
      exact regular.data
    · rw [properties]
      exact regular.unshared.properties
    · rw [properties]
      exact regular.unshared.maps
  children := h.children
  child := h.child

end Node

/-! ### Entries in their places -/

namespace Dict

/-- A value is written in the place of an entry under the key, or at the end if there is none. -/
theorem insert_cases (d : Dict) (key : Value) :
    (get? d key = none ∧ ∀ v, insert d key v = d ++ [(key, v)]) ∨
      ∃ l e r, d = l ++ e :: r ∧ get? d key = some e.2 ∧
        ∀ v, insert d key v = l ++ (e.1, v) :: r := by
  induction d with
  | nil => exact .inl ⟨rfl, fun v => rfl⟩
  | cons e d ih =>
    by_cases here : key.alike e.1 = true
    · refine .inr ⟨[], e, d, rfl, by rw [get?_cons, if_pos here], fun v => ?_⟩
      rw [insert, if_pos here]
      rfl
    · rw [get?_cons, if_neg here]
      rcases ih with ⟨absent, eq⟩ | ⟨l, f, r, rfl, held, eq⟩
      · refine .inl ⟨absent, fun v => ?_⟩
        rw [insert, if_neg here, eq]
        rfl
      · refine .inr ⟨e :: l, f, r, rfl, held, fun v => ?_⟩
        rw [insert, if_neg here, eq]
        rfl

theorem exists_split {d : Dict} {key : String} {v : Value}
    (held : get? d (.string key) = some v) : ∃ l e r, d = l ++ e :: r ∧
      (∀ f ∈ l, f.1.content ≠ .string key) ∧ e.1.content = .string key ∧ e.2 = v := by
  induction d with
  | nil => cases held
  | cons e d ih =>
    by_cases here : e.1.content = .string key
    · rw [get?_of_content here] at held
      exact ⟨[], e, d, rfl, fun f hf => (List.not_mem_nil hf).elim, here, Option.some.inj held⟩
    · rw [get?_of_content_ne here] at held
      obtain ⟨l, f, r, rfl, before, content, value⟩ := ih held
      exact ⟨e :: l, f, r, rfl, List.forall_mem_cons.2 ⟨here, before⟩, content, value⟩

variable {l r : Dict} {key : String} {e : Value × Value} {v : Value}

theorem get?_split (before : ∀ f ∈ l, f.1.content ≠ .string key)
    (content : e.1.content = .string key) : get? (l ++ e :: r) (.string key) = some e.2 := by
  induction l with
  | nil => exact get?_of_content content
  | cons f l ih =>
    obtain ⟨first, rest⟩ := List.forall_mem_cons.1 before
    exact (get?_of_content_ne first).trans (ih rest)

theorem insert_split (before : ∀ f ∈ l, f.1.content ≠ .string key)
    (content : e.1.content = .string key) :
    insert (l ++ e :: r) (.string key) v = l ++ (e.1, v) :: r := by
  induction l with
  | nil => exact insert_cons_of_content content
  | cons f l ih =>
    obtain ⟨first, rest⟩ := List.forall_mem_cons.1 before
    exact (insert_cons_of_content_ne first).trans (congrArg _ (ih rest))

end Dict

/-! ### Bindings -/

/-- Channel definitions after fields of some of them were bound to axes: the field of a definition
is replaced in its place, or a new definition is added at the end. -/
inductive Binds (axes : List String) (before : Dict) : Dict → Prop where
  | refl : Binds axes before before
  | field {l r : Dict} {key : Value} {fields : Dict} {axis : String} (mem : axis ∈ axes)
      (earlier : Binds axes before (l ++ (key, .dict fields) :: r)) :
      Binds axes before
        (l ++ (key, .dict (Dict.insert fields (.string "field") (Chart.axisField axis))) :: r)
  | new {after : Dict} {channel : Value} {axis : String} (mem : axis ∈ axes)
      (text : channel.IsText) (earlier : Binds axes before after) :
      Binds axes before (after ++ [(channel, Chart.newDefinition axis)])

/-- The entries of an object after the channels under a key were bound to axes. -/
inductive Injects (axes : List String) (key : String) (own : Dict) : Dict → Prop where
  | none : Injects axes key own own
  | some {l before after r : Dict} (split : own = l ++ (.string key, .dict before) :: r)
      (binds : Binds axes before after) :
      Injects axes key own (l ++ (.string key, .dict after) :: r)

theorem Binds.eq_of_nil {before after : Dict} (h : Binds [] before after) : after = before := by
  cases h with
  | refl => rfl
  | field mem => cases mem
  | new mem => cases mem

theorem Injects.eq_of_nil {key : String} {own after : Dict} (h : Injects [] key own after) :
    after = own := by
  cases h with
  | none => rfl
  | some split binds => rw [split, binds.eq_of_nil]

def Dict.Nested (d : Dict) : Prop :=
  ∀ e ∈ d, ∃ fields, e.2 = .dict fields

namespace Chart

/-- Why an axis cannot be bound in a node of a kind. -/
def axisError? (kind : Kind) (channel : Value) : Option CompileError :=
  if kind = .facet ∧ isFacetChannel channel = false then some (.notFacetChannel channel) else none

theorem lookUp?_text {key : Value} (text : key.IsText) (d : Dict) :
    Dict.lookUp? d key = .ok (Dict.get? d key) := by
  obtain ⟨s, content⟩ := text
  obtain ⟨id, c⟩ := key
  cases content
  rfl

theorem boundChannel_eq (kind : Kind) {id : Option Identity} {entries : Dict} {axis : String}
    {channel : Value} (found : (Dict.get? entries (.string axis)).getD .null = channel)
    (sound : channel = .null ∨ channel.IsText) :
    boundChannel kind ⟨id, .dict entries⟩ (.string axis) = match axisError? kind channel with
      | some e => .error e
      | none => .ok channel := by
  have lookable : channel.lookable = .ok () := by
    rcases sound with rfl | ⟨s, content⟩
    · rfl
    · obtain ⟨id, c⟩ := channel
      cases content
      rfl
  have named : (Value.string axis).IsText := ⟨axis, rfl⟩
  have fetched : (do Dict.lookUp? (← Value.entriesFor "get" ⟨id, .dict entries⟩) (.string axis)) =
      .ok (Dict.get? entries (.string axis)) := lookUp?_text named entries
  rw [boundChannel, fetched, axisError?]
  simp only [Except.mapError, bind, Except.bind, found, lookable]
  by_cases facet : kind = .facet
  · subst facet
    cases isFacetChannel channel <;> rfl
  · simp only [facet, if_neg, false_and, not_false_eq_true]
    rfl

/-- Binding a channel sets the field of its definition or adds one. -/
theorem definitionsWith_binds {channel : Value} (text : channel.IsText) (axis : String)
    {before : Dict} (nested : before.Nested) :
    ∃ after, definitionsWith channel (.string axis) (some (.dict before)) = .ok (.dict after) ∧
      after.Nested ∧ ∀ axes start, axis ∈ axes → Binds axes start before →
        Binds axes start after := by
  have looked := lookUp?_text text before
  have written (v : Value)
      (bound : boundDefinition (.string axis) (Dict.get? before channel) = .ok v) :
      definitionsWith channel (.string axis) (some (.dict before)) =
        .ok (.dict (Dict.insert before channel v)) := by
    rw [definitionsWith]
    show (do
      let held ← Dict.lookUp? before channel
      let definition ← boundDefinition (.string axis) held
      pure (Value.dict (Dict.insert before channel definition))) = _
    rw [looked]
    show (do
      let definition ← boundDefinition (.string axis) (Dict.get? before channel)
      pure (Value.dict (Dict.insert before channel definition))) = _
    rw [bound]
    rfl
  rcases Dict.insert_cases before channel with ⟨absent, eq⟩ | ⟨l, e, r, rfl, held, eq⟩
  · refine ⟨_, written _ (by rw [absent]; rfl), ?_, fun axes start mem earlier => ?_⟩
    · rw [eq]
      intro e he
      rcases List.mem_append.1 he with he | he
      · exact nested e he
      · rw [List.mem_singleton.1 he]
        exact ⟨_, rfl⟩
    · rw [eq]
      exact earlier.new mem text
  · obtain ⟨fields, dict⟩ := nested e (List.mem_append_right _ (List.mem_cons_self ..))
    obtain ⟨key, v⟩ := e
    cases dict
    refine ⟨_, written _ (by rw [held]; rfl), ?_, fun axes start mem earlier => ?_⟩
    · rw [eq]
      intro f hf
      rcases List.mem_append.1 hf with hf | hf
      · exact nested f (List.mem_append_left _ hf)
      · rcases List.mem_cons.1 hf with rfl | hf
        · exact ⟨_, rfl⟩
        · exact nested f (List.mem_append_right _ (List.mem_cons_of_mem _ hf))
    · rw [eq]
      exact earlier.field mem

variable {kind : Kind} (id : Option Identity) {entries l before : Dict} (r : Dict)

/-- Binding an axis changes the channel definitions, or ends if the channel has no place in a
facet. -/
theorem bindAxis_ends (texts : ∀ e ∈ entries, e.2.IsText)
    (fresh : ∀ e ∈ l, e.1.content ≠ .string kind.channelsKey) (nested : before.Nested)
    (axis : String) :
    Ends (axisError? kind ((Dict.get? entries (.string axis)).getD .null)).toList
      (bindAxisApart kind ⟨id, .dict entries⟩
        (.dict (l ++ (.string kind.channelsKey, .dict before) :: r)) (.string axis))
      fun v => ∃ after, v = .dict (l ++ (.string kind.channelsKey, .dict after) :: r) ∧
        after.Nested ∧ ∀ axes start, axis ∈ axes → Binds axes start before →
          Binds axes start after := by
  have sound : (Dict.get? entries (.string axis)).getD .null = .null ∨
      ((Dict.get? entries (.string axis)).getD .null).IsText := by
    cases held : Dict.get? entries (.string axis) with
    | none => exact .inl rfl
    | some w =>
      obtain ⟨_, e, _, rfl, _, _, rfl⟩ := Dict.exists_split held
      exact .inr (texts e (List.mem_append_right _ (List.mem_cons_self ..)))
  rw [bindAxisApart, boundChannel_eq kind rfl sound]
  generalize (Dict.get? entries (.string axis)).getD .null = channel at sound
  cases error : axisError? kind channel with
  | some e => exact rfl
  | none =>
    rcases sound with rfl | text
    · exact ⟨_, rfl, before, rfl, nested, fun _ _ _ earlier => earlier⟩
    · obtain ⟨after, defined, nested', binds⟩ := definitionsWith_binds text axis nested
      have held :=
        Dict.get?_split (r := r) (e := (.string kind.channelsKey, .dict before)) fresh rfl
      have given : channel.isNull = false := by
        obtain ⟨s, content⟩ := text
        rw [Value.isNull, content]
        rfl
      refine ⟨_, ?_, after, rfl, nested', binds⟩
      show (if channel.isNull then _ else _) = _
      rw [given, if_neg Bool.false_ne_true, withBindingApart_dict, held, defined]
      exact congrArg Except.ok (congrArg Value.dict (Dict.insert_split fresh rfl))

theorem bindAll_ends (texts : ∀ e ∈ entries, e.2.IsText)
    (fresh : ∀ e ∈ l, e.1.content ≠ .string kind.channelsKey) (nested : before.Nested)
    (axes : List String) :
    Ends (axes.filterMap fun axis =>
        axisError? kind ((Dict.get? entries (.string axis)).getD .null))
      ((axes.map Value.string).foldlM (bindAxisApart kind ⟨id, .dict entries⟩)
        (.dict (l ++ (.string kind.channelsKey, .dict before) :: r)))
      fun v => ∃ after, v = .dict (l ++ (.string kind.channelsKey, .dict after) :: r) ∧
        Binds axes before after := by
  -- All axes stay in the bindings while the fold uses them up.
  have all : ∀ (some : List String) (middle : Dict), (∀ axis ∈ some, axis ∈ axes) →
      middle.Nested → Binds axes before middle →
      Ends (some.filterMap fun axis =>
          axisError? kind ((Dict.get? entries (.string axis)).getD .null))
        ((some.map Value.string).foldlM (bindAxisApart kind ⟨id, .dict entries⟩)
          (.dict (l ++ (.string kind.channelsKey, .dict middle) :: r)))
        fun v => ∃ after, v = .dict (l ++ (.string kind.channelsKey, .dict after) :: r) ∧
          Binds axes before after := by
    intro some
    induction some with
    | nil => exact fun middle _ _ binds => ⟨_, rfl, middle, rfl, binds⟩
    | cons axis rest ih =>
      intro middle mem nested binds
      have first := bindAxis_ends id r texts fresh nested axis
      have split : (axis :: rest).filterMap (fun axis =>
          axisError? kind ((Dict.get? entries (.string axis)).getD .null)) =
          (axisError? kind ((Dict.get? entries (.string axis)).getD .null)).toList ++
            rest.filterMap fun axis =>
              axisError? kind ((Dict.get? entries (.string axis)).getD .null) := by
        rw [List.filterMap_cons]
        cases axisError? kind ((Dict.get? entries (.string axis)).getD .null) <;> rfl
      rw [split, List.map_cons, List.foldlM_cons]
      refine first.bind fun v hv => ?_
      obtain ⟨after, rfl, nested', step⟩ := hv
      exact ih after (fun axis hm => mem axis (List.mem_cons_of_mem _ hm)) nested'
        (step axes before (mem axis (List.mem_cons_self ..)) binds)
  exact all axes before (fun _ hm => hm) nested .refl

end Chart

/-! ### Channels and axes of a node -/

theorem AxisBinding.names?_repeatedFields (bindings : List AxisBinding) :
    Dict.names? (repeatedFields bindings) = some (bindings.map (·.axis.name)) := by
  induction bindings with
  | nil => rfl
  | cons b bindings ih =>
    show ((some b.axis.name).bind fun name =>
      (Dict.names? (repeatedFields bindings)).map (name :: ·)) = _
    rw [ih]
    rfl

theorem Node.axes_eq {n : Node} {entries definitions : Dict} {bindings : List AxisBinding}
    (shaped : n.toSpec.ShapedAs entries definitions bindings) (kind : n.kind = .repeated) :
    n.axes = bindings.map (·.axis.name) := by
  have field : n.properties.field? "repeat" =
      some (.dict (AxisBinding.repeatedFields bindings)) := by
    rw [shaped.properties]
    exact shaped.get?_repeat kind
  rw [axes, field]
  show (Dict.names? (AxisBinding.repeatedFields bindings)).getD [] = _
  rw [AxisBinding.names?_repeatedFields]
  rfl

namespace Node.Rewired

variable {n : Node} (h : n.Rewired)

include h

theorem ownEntries_split (isRoot : Bool) (carries : n.kind.carriesChannels = true) :
    ∃ l definitions r,
      n.ownEntries isRoot = l ++ (.string n.kind.channelsKey, .dict definitions) :: r ∧
        (∀ e ∈ l, e.1.content ≠ .string n.kind.channelsKey) ∧ definitions.Nested := by
  obtain ⟨m, grown, kind, properties, _⟩ := h.grown
  obtain ⟨entries, definitions, bindings, shaped⟩ := grown.shaped.spec
  have copies : n.entries = Value.copiedEntries none entries :=
    Node.entriesOn_eq (properties.trans shaped.properties) none
  have held : Dict.get? (n.ownEntries isRoot) (.string n.kind.channelsKey) =
      some (.dict (Value.copiedEntries none definitions)) := by
    have among : Dict.get? n.entries (.string n.kind.channelsKey) =
        some (.dict (Value.copiedEntries none definitions)) := by
      rw [kind] at carries
      rw [copies, Dict.get?_copiedEntries, kind, shaped.get?_channelsKey carries]
      exact congrArg some (Value.copied_dict none definitions)
    cases isRoot with
    | true => exact among
    | false =>
      refine (Dict.get?_eraseAll_of_not_mem n.entries ?_).trans among
      cases n.kind <;> decide
  obtain ⟨l, e, r, split, fresh, content, value⟩ := Dict.exists_split held
  have key : e = (.string n.kind.channelsKey, .dict (Value.copiedEntries none definitions)) := by
    obtain ⟨name, _, eq⟩ := h.regular.ownEntries_under isRoot e
      (split ▸ List.mem_append_right _ (List.mem_cons_self ..))
    rw [eq] at content
    have same : name = n.kind.channelsKey := Content.string.inj content
    exact Prod.ext (by rw [eq, same]) value
  refine ⟨l, Value.copiedEntries none definitions, r, by rw [split, key], fresh, fun f hf => ?_⟩
  obtain ⟨c, fields, rfl, _⟩ := shaped.defines.copied none f hf
  exact ⟨fields, rfl⟩

/-- The repeated axes come into an object as they are. -/
theorem get?_repeat (isRoot : Bool) (kind : n.kind = .repeated) :
    ∃ bindings, n.axes = bindings.map (·.axis.name) ∧
      Dict.get? (n.ownEntries isRoot) (.string "repeat") =
        some (.dict (AxisBinding.repeatedFields bindings)) := by
  obtain ⟨m, grown, same, properties, _⟩ := h.grown
  obtain ⟨entries, definitions, bindings, shaped⟩ := grown.shaped.spec
  have held := shaped.get?_repeat (same ▸ kind)
  refine ⟨bindings.map (AxisBinding.copied none), ?_, ?_⟩
  · rw [List.map_map]
    show n.axes = bindings.map (·.axis.name)
    rw [← axes_eq shaped (same ▸ kind), Node.axes, Node.axes, properties]
  · have among : Dict.get? n.entries (.string "repeat") =
        some (.dict (AxisBinding.repeatedFields (bindings.map (AxisBinding.copied none)))) := by
      rw [Node.entries, Node.entriesOn_eq (properties.trans shaped.properties),
        Dict.get?_copiedEntries, held, ← AxisBinding.copiedEntries_repeatedFields]
      exact congrArg some (Value.copied_dict none _)
    cases isRoot with
    | true => exact among
    | false => exact (Dict.get?_eraseAll_of_not_mem n.entries (by decide)).trans among

/-- The axes that a repeat is bound along are those among its properties. -/
theorem axesOf_eq (isRoot : Bool) (kind : n.kind = .repeated) (v : Value) :
    Chart.axesOf (.dict (Dict.insert (n.ownEntries isRoot) (.string "spec") v)) =
      .ok (n.axes.map Value.string) := by
  obtain ⟨bindings, axes, held⟩ := h.get?_repeat isRoot kind
  rw [Chart.axesOf_dict, Dict.get?_insert_of_ne _ (by decide), held, axes, List.map_map]
  show Except.ok (Dict.keys (AxisBinding.repeatedFields bindings)) = _
  rw [AxisBinding.repeatedFields, AxisBinding.underAxes, Dict.keys, List.map_map]
  rfl

end Node.Rewired

end ChartTree
