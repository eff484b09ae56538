import ChartTree.Proofs.Node.Slots

/-!
# Verdicts on calls

What becomes of a call is settled by the kind of the node and the arguments: either one slot of the
node takes a content that fits it, or the call is refused and nothing changes. On nodes of the
proper shape every setter follows this verdict.
-/

namespace ChartTree

namespace Slot

def absent : (s : Slot) → s.Content
  | .data => .empty
  | .inner => (.list [], .null)
  | .entry _ | .channel _ => none
  | .axis _ => (none, none)

/-- Whether there is something under the key of a slot that has one. -/
def present : (s : Slot) → s.Content → Bool
  | .data, _ | .inner, _ => true
  | .entry _, v | .channel _, v => v.isSome
  | .axis _, (fields, _) => fields.isSome

end Slot

namespace Call

/-- The slot that a call is about; a definition for no channel is about none. -/
def slot? : Call → Option Slot
  | .data .. => some .data
  | .inner _ => some .inner
  | .mark .. => some (.entry .mark)
  | .encode channel .. => (Edit.channelArg channel).toOption.map .channel
  | .bindAxis axis .. => some (.axis axis)
  | .transform _ => some (.entry .transform)
  | .projection .. => some (.entry .projection)
  | .property p _ => some (.entry (.simple p))

/-- Whether the argument that says what to write is absent. -/
def clears : Call → Bool
  | .data source _ => source.content.isNull
  | .inner args => (args.head?.map Value.isNull).getD false
  | .mark type _ => type.isNull
  | .encode _ field .. => field.isNull
  | .bindAxis _ channel _ => channel.isNull
  | .transform items => (items.head?.map Value.isNull).getD false
  | .projection type _ => type.isNull
  | .property _ value => value.isNull

end Call

/-- The slot that a call writes with its new content, or why the call is refused. -/
abbrev Verdict := Except BuildError (Σ s : Slot, s.Content)

namespace Call

/-- Refuses a call unless a condition holds. -/
def ensure (condition : Bool) (reason : BuildError) : Except BuildError Unit :=
  if condition then .ok () else .error reason

/-- The verdict on the inner nodes that a node of a kind is given. -/
def seat (k : Kind) (nodes : List NodeRef) : Verdict :=
  if k.isSingle then
    match nodes.head? with
    | none => .ok ⟨.inner, (.list [], .null)⟩
    | some first => do
      ensure (k != .repeated || first.kind.canRepeat) (.notRepeatable first.kind)
      .ok ⟨.inner, (.list [], .ofNode first)⟩
  else
    match nodes.find? fun node => k == .layer && !node.kind.canLayer with
    | some node => .error (.notLayerable node.kind)
    | none => .ok ⟨.inner, (.list (nodes.map Value.ofNode), .null)⟩

/-- The verdict on a call to a node of a kind. -/
def verdict (k : Kind) : Call → Verdict
  | .data source options => do
    ensure k.carriesData (.noData k)
    if source.content.isNull then .ok ⟨.data, .empty⟩
    else do
      let reference ← DataReference.ofSource source options
      .ok ⟨.data, .reference reference⟩
  | .inner args => do
    ensure (k != .unit) .noInner
    if (args.head?.map Value.isNull).getD false then .ok ⟨.inner, (.list [], .null)⟩
    else do
      let nodes ← Edit.nodeArgs args
      seat k nodes
  | .mark type options => do
    ensure (k == .unit) (.noMark k)
    if type.isNull then .ok ⟨.entry .mark, none⟩
    else do
      let m ← Edit.markArg type
      .ok ⟨.entry .mark, some (.dict (Dict.merge (Dict.ofFields [("type", m.name)]) options))⟩
  | .encode channel field dataType options => do
    ensure k.carriesChannels (.noChannels k)
    let c ← Edit.channelArg channel
    ensure (k != .facet || c.isFacetChannel) .notFacetChannel
    if field.isNull then .ok ⟨.channel c, none⟩
    else do
      let binding ← Edit.fieldArg field
      let type ← Edit.dataTypeArg dataType
      .ok ⟨.channel c, some (.dict
        (Dict.merge (Dict.ofFields (binding ++ [("type", .string type.name)])) options))⟩
  | .bindAxis axis channel fields => do
    ensure (k == .repeated) (.noRepeat k)
    if channel.isNull then .ok ⟨.axis axis, (none, none)⟩
    else do
      let c ← Edit.channelArg channel
      let names ← Edit.fieldsArg fields
      .ok ⟨.axis axis, (some (.list names), some (.string c.storedName))⟩
  | .transform items =>
    if (items.head?.map Value.isNull).getD false then .ok ⟨.entry .transform, none⟩
    else do
      let transforms ← Edit.transformArgs items
      .ok ⟨.entry .transform, some (.list transforms)⟩
  | .projection type options => do
    ensure k.canProject (.noProjection k)
    if type.isNull then .ok ⟨.entry .projection, none⟩
    else
      match type.content with
      | .string _ => .ok ⟨.entry .projection,
          some (.dict (Dict.merge (Dict.ofFields [("type", type)]) options))⟩
      | _ => .error .badProjection
  | .property p value => do
    ensure (p.allows k) (.noProperty p k)
    if value.isNull then .ok ⟨.entry (.simple p), none⟩
    else
      match value.valueType? with
      | some t => do
        ensure (p.valueTypes.contains t) (.badProperty p value.typeName)
        .ok ⟨.entry (.simple p), some value⟩
      | none => .error (.badProperty p value.typeName)

end Call

/-! ### Following a verdict -/

namespace Edit

variable {α : Type} {n : Node}

/-- An edit of a node comes to what a verdict says. -/
def Follows (e : Edit Unit) (n : Node) (r : Verdict) : Prop :=
  e.run n = match r with
    | .ok ⟨s, content⟩ => .ok () (n.put s content)
    | .error reason => .error reason n

theorem follows_get {f : Node → Edit Unit} {r : Verdict} (h : Follows (f n) n r) :
    Follows (get >>= f) n r :=
  h

theorem follows_throw (reason : BuildError) : Follows (throw reason) n (.error reason) :=
  rfl

theorem follows_require {condition : Bool} {reason : BuildError} {f : Unit → Edit Unit}
    {g : Unit → Verdict} (h : condition = true → Follows (f ()) n (g ())) :
    Follows (require condition reason >>= f) n (Call.ensure condition reason >>= g) := by
  cases condition with
  | false => rfl
  | true => exact h rfl

theorem follows_checked {result : Except BuildError α} {f : α → Edit Unit} {g : α → Verdict}
    (h : ∀ a, result = .ok a → Follows (f a) n (g a)) :
    Follows (checked result >>= f) n (result >>= g) := by
  cases result with
  | error reason => rfl
  | ok a => exact h a rfl

theorem follows_reached {result : Except Misuse α} {a : α} (eq : result = .ok a)
    {f : α → Edit Unit} {r : Verdict} (h : Follows (f a) n r) :
    Follows (reached result >>= f) n r := by
  rw [eq]
  exact h

theorem follows_modify {g : Node → Node} {s : Slot} {content : s.Content}
    (eq : g n = n.put s content) : Follows (modify g) n (.ok ⟨s, content⟩) := by
  show EStateM.Result.ok () (g n) = _
  rw [eq]

theorem run_bind_ok {e : Edit α} {a : α} {m : Node} (eq : e.run n = .ok a m) {f : α → Edit Unit} :
    (e >>= f).run n = (f a).run m := by
  simp only [EStateM.run, bind, EStateM.bind] at eq ⊢
  rw [eq]

theorem run_put (dict : n.properties.IsDict) (key : String) (v : Value) :
    (put key v).run n = .ok () { n with properties := n.properties.assign key (some v) } := by
  have written : n.properties.withEntry (.string key) v =
      .ok (n.properties.assign key (some v)) := by
    obtain ⟨d, eq⟩ := dict
    rw [eq]
    rfl
  show (reached (n.properties.withEntry (.string key) v) >>= fun properties =>
    set { n with properties := properties }).run n = _
  rw [written]
  rfl

theorem follows_put (dict : n.properties.IsDict) (e : Entry) (v : Value) :
    Follows (put e.key v) n (.ok ⟨.entry e, some v⟩) :=
  run_put dict e.key v

theorem follows_drop (dict : n.properties.IsDict) (e : Entry) :
    Follows (drop e.key) n (.ok ⟨.entry e, none⟩) := by
  have removed : n.properties.withoutName e.key = .ok (n.properties.assign e.key none) := by
    obtain ⟨d, eq⟩ := dict
    rw [eq]
    rfl
  show (reached (n.properties.withoutName e.key) >>= fun properties =>
    set { n with properties := properties }).run n = _
  rw [removed]
  rfl

theorem held_eq {key : String} {w : Value} (dict : n.properties.IsDict)
    (found : n.properties.field? key = some w) : held n key = .ok w := by
  obtain ⟨d, eq⟩ := dict
  rw [eq] at found
  have looked : Dict.lookUp? d (.string key) = .ok (some w) := congrArg Except.ok found
  simp only [held, eq, Value.entryAt, Value.content, looked, bind, Except.bind]
  rfl

/-! ### Setters -/

theorem follows_data (source : Shared) (options : Dict) :
    Follows (data source options) n ((Call.data source options).verdict n.kind) := by
  refine follows_get (follows_require fun _ => ?_)
  split
  · exact follows_modify rfl
  · exact follows_checked fun reference _ => follows_modify rfl

theorem follows_inner (h : n.Shaped) (args : List Value) :
    Follows (inner args) n ((Call.inner args).verdict n.kind) := by
  obtain ⟨nodes, node?, children, child, seats⟩ := h.inner
  refine follows_get (follows_require fun _ => ?_)
  split
  · exact follows_modify rfl
  · refine follows_checked fun given _ => ?_
    rw [Call.seat]
    split
    · rename_i single
      have none_listed : n.children = .list [] := by
        rw [children, seats.concat (by cases kind : n.kind <;> rw [kind] at single <;> trivial)]
        rfl
      have alone (child : Value) :
          Follows (modify fun n => { n with child := child }) n
            (.ok ⟨.inner, (.list [], child)⟩) := by
        refine follows_modify ?_
        rw [← none_listed]
        rfl
      cases given.head? with
      | none => exact alone .null
      | some first => exact follows_require fun _ => alone (.ofNode first)
    · rename_i many
      have none_wrapped : n.child = .null := by
        rw [child, seats.single (by simpa using many)]
        rfl
      cases given.find? fun node => n.kind == .layer && !node.kind.canLayer with
      | some node => exact follows_throw _
      | none =>
        refine follows_modify ?_
        rw [← none_wrapped]
        rfl

theorem follows_mark (dict : n.properties.IsDict) (type : Value) (options : Dict) :
    Follows (mark type options) n ((Call.mark type options).verdict n.kind) := by
  refine follows_get (follows_require fun _ => ?_)
  split
  · exact follows_drop dict .mark
  · exact follows_checked fun m _ => follows_put dict .mark _

theorem follows_encode (h : n.toSpec.Shaped) (channel field dataType : Value) (options : Dict) :
    Follows (encode channel field dataType options) n
      ((Call.encode channel field dataType options).verdict n.kind) := by
  obtain ⟨entries, definitions, bindings, shaped⟩ := h
  have dict : n.properties.IsDict := ⟨entries, shaped.properties⟩
  refine follows_get (follows_require fun carries => follows_checked fun c _ =>
    follows_require fun _ => ?_)
  have found := (shaped.field?_properties _).trans (shaped.get?_channelsKey carries)
  have writes (v : Option Value) (d : Dict) (eq : definitions.assign c.storedName v = d) :
      Follows (put n.kind.channelsKey (.dict d)) n (.ok ⟨.channel c, v⟩) := by
    refine (run_put dict n.kind.channelsKey _).trans ?_
    show _ = EStateM.Result.ok () { n with
      properties := n.properties.update n.kind.channelsKey (·.assign c.storedName v) }
    rw [Value.update, found, ← eq]
    rfl
  refine follows_reached (held_eq dict found) ?_
  split
  · exact follows_reached rfl (writes none _ rfl)
  · exact follows_checked fun binding _ => follows_checked fun type _ =>
      follows_reached rfl (writes (some _) _ rfl)

theorem follows_bindAxis (h : n.toSpec.Shaped) (axis : Axis) (channel fields : Value) :
    Follows (bindAxis axis channel fields) n
      ((Call.bindAxis axis channel fields).verdict n.kind) := by
  obtain ⟨entries, definitions, bindings, shaped⟩ := h
  have dict : n.properties.IsDict := ⟨entries, shaped.properties⟩
  refine follows_get (follows_require fun repeated => ?_)
  have found := (shaped.field?_properties _).trans (shaped.get?_repeat (by simpa using repeated))
  have writes (fields channel : Option Value) {axes channels : Dict}
      (axes_eq : (AxisBinding.repeatedFields bindings).assign axis.name fields = axes)
      (channels_eq : (AxisBinding.boundChannels bindings).assign axis.name channel = channels)
      {bound : Edit Unit} (binds : ∀ p, bound.run { n with properties := p } =
        .ok () { n with properties := p, repeatChannels := .dict channels }) :
      Follows (do put "repeat" (.dict axes); bound) n (.ok ⟨.axis axis, (fields, channel)⟩) := by
    refine (run_bind_ok (run_put dict "repeat" _)).trans ((binds _).trans ?_)
    show _ = EStateM.Result.ok () { n with
      properties := n.properties.update "repeat" (·.assign axis.name fields)
      repeatChannels := n.repeatChannels.assign axis.name channel }
    rw [Value.update, found, shaped.channels, ← axes_eq, ← channels_eq]
    rfl
  split
  · refine follows_reached (held_eq dict found) (follows_reached rfl (writes none none rfl rfl ?_))
    intro p
    rw [shaped.channels]
    rfl
  · refine follows_checked fun c _ => follows_checked fun names _ =>
      follows_reached (held_eq dict found)
        (follows_reached rfl (writes (some _) (some _) rfl rfl ?_))
    intro p
    rw [shaped.channels]
    rfl

theorem follows_transform (dict : n.properties.IsDict) (items : List Value) :
    Follows (transform items) n ((Call.transform items).verdict n.kind) := by
  rw [transform, Call.verdict]
  split
  · exact follows_drop dict .transform
  · exact follows_checked fun transforms _ => follows_put dict .transform _

theorem follows_projection (dict : n.properties.IsDict) (type : Value) (options : Dict) :
    Follows (projection type options) n ((Call.projection type options).verdict n.kind) := by
  refine follows_get (follows_require fun _ => ?_)
  split
  · exact follows_drop dict .projection
  · cases type.content with
    | string s => exact follows_put dict .projection _
    | _ => exact follows_throw _

theorem follows_property (dict : n.properties.IsDict) (p : Property) (value : Value) :
    Follows (property p value) n ((Call.property p value).verdict n.kind) := by
  refine follows_get (follows_require fun _ => ?_)
  split
  · exact follows_drop dict (.simple p)
  · cases value.valueType? with
    | none => exact follows_throw _
    | some t => exact follows_require fun _ => follows_put dict (.simple p) value

end Edit

/-- On a node of the proper shape a call comes to its verdict. -/
theorem Call.follows_verdict {n : Node} (h : n.Shaped) (call : Call) :
    call.edit.Follows n (call.verdict n.kind) := by
  have dict : n.properties.IsDict := by
    obtain ⟨entries, definitions, bindings, shaped⟩ := h.spec
    exact ⟨entries, shaped.properties⟩
  cases call with
  | data source options => exact Edit.follows_data source options
  | inner args => exact Edit.follows_inner h args
  | mark type options => exact Edit.follows_mark dict type options
  | encode channel field dataType options =>
    exact Edit.follows_encode h.spec channel field dataType options
  | bindAxis axis channel fields => exact Edit.follows_bindAxis h.spec axis channel fields
  | transform items => exact Edit.follows_transform dict items
  | projection type options => exact Edit.follows_projection dict type options
  | property p value => exact Edit.follows_property dict p value

/-! ### What a verdict writes -/

theorem DataReference.ofSource_oneSource {source : Shared} {options : Dict} {r : DataReference}
    (made : ofSource source options = .ok r) : r.OneSource := by
  simp only [ofSource] at made
  split at made
  · cases made
  · rename_i unreserved
    have free : ∀ key ∈ reservedKeys, Dict.get? options (.string key) = none := by
      intro key mem
      simp only [Bool.not_eq_true', Bool.not_eq_false, List.isEmpty_iff, List.filter_eq_nil_iff,
        Dict.hasKey, Option.not_isSome_iff_eq_none] at unreserved
      exact unreserved key mem
    split at made
    · rename_i s content
      cases made
      exact ⟨.inl ⟨⟨s, content⟩, rfl⟩, options, rfl, free⟩
    · rename_i items content
      cases made
      exact ⟨.inr ⟨rfl, source, rfl, .inl ⟨items, content⟩⟩, options, rfl, free⟩
    · rename_i items content
      cases made
      exact ⟨.inr ⟨rfl, source, rfl, .inr (.inl ⟨items, content⟩)⟩, options, rfl, free⟩
    · rename_i entries content
      cases made
      exact ⟨.inr ⟨rfl, source, rfl, .inr (.inr ⟨entries, content⟩)⟩, options, rfl, free⟩
    · cases made

namespace Edit

theorem fieldNames_texts {vs names : List Value} (checked : fieldNames vs = .ok names) :
    ∀ v ∈ names, v.IsText := by
  induction vs generalizing names with
  | nil =>
    cases checked
    exact fun v hv => by cases hv
  | cons w vs ih =>
    rw [fieldNames] at checked
    split at checked
    · rename_i s content
      obtain ⟨others, rest, checked⟩ := bind_eq_ok_iff.1 checked
      cases checked
      exact List.forall_mem_cons.2 ⟨⟨s, content⟩, ih rest⟩
    · cases checked

theorem fieldsArg_texts {v : Value} {names : List Value} (checked : fieldsArg v = .ok names) :
    ∀ v ∈ names, v.IsText := by
  rw [fieldsArg] at checked
  split at checked
  · exact fieldNames_texts checked
  · exact fieldNames_texts checked
  · cases checked

theorem nodeArgs_eq_ok {vs : List Value} {nodes : List NodeRef}
    (checked : nodeArgs vs = .ok nodes) : vs.map Value.node? = nodes.map some := by
  induction vs generalizing nodes with
  | nil =>
    cases checked
    rfl
  | cons w vs ih =>
    rw [nodeArgs] at checked
    split at checked
    · rename_i m node
      obtain ⟨others, rest, checked⟩ := bind_eq_ok_iff.1 checked
      cases checked
      rw [List.map_cons, node, ih rest]
      rfl
    · cases checked

end Edit

namespace Call

variable {k : Kind} {r : Σ s : Slot, s.Content}

theorem of_ensure_bind {condition : Bool} {reason : BuildError} {f : Unit → Verdict}
    (h : (ensure condition reason >>= f) = .ok r) : condition = true ∧ f () = .ok r := by
  cases condition with
  | false => cases h
  | true => exact ⟨rfl, h⟩

theorem of_bind {α : Type} {result : Except BuildError α} {f : α → Verdict}
    (h : (result >>= f) = .ok r) : ∃ a, result = .ok a ∧ f a = .ok r := by
  cases result with
  | error reason => cases h
  | ok a => exact ⟨a, rfl, h⟩

/-- Inner nodes are seated where nodes of the kind have them, and all of them are given. -/
theorem of_seat {nodes : List NodeRef} (composite : k ≠ .unit) (h : seat k nodes = .ok r) :
    ∃ listed node?, r = ⟨.inner, (.list (listed.map Value.ofNode),
      (node?.map Value.ofNode).getD .null)⟩ ∧ k.Seats listed node? ∧
        ∀ m, m ∈ listed ∨ node? = some m → m ∈ nodes := by
  rw [seat] at h
  split at h
  · rename_i single
    split at h
    · cases h
      exact ⟨[], none, rfl, k.seats_none, fun m hm => by simp at hm⟩
    · rename_i first given
      obtain ⟨may, h⟩ := of_ensure_bind h
      cases h
      refine ⟨[], some first, rfl,
        ⟨fun _ => rfl, fun no => ?_, fun _ m hm => (List.not_mem_nil hm).elim, ?_⟩, ?_⟩
      · rw [single] at no
        cases no
      · rintro rfl m hm
        cases hm
        exact may
      · rintro m (hm | hm)
        · cases hm
        · cases hm
          exact List.mem_of_mem_head? given
  · rename_i many
    split at h
    · cases h
    · rename_i fine
      cases h
      refine ⟨nodes, none, rfl,
        ⟨fun no => ?_, fun _ => rfl, ?_, fun _ m hm => (Option.some_ne_none m hm.symm).elim⟩, ?_⟩
      · cases k <;> first | exact absurd rfl composite | exact absurd rfl many | cases no
      · rintro rfl m hm
        simpa using List.find?_eq_none.1 fine m hm
      · rintro m (hm | hm)
        · exact hm
        · cases hm

theorem of_verdict_inner {args : List Value} (h : (inner args).verdict k = .ok r) :
    ∃ listed node?, r = ⟨.inner, (.list (listed.map Value.ofNode),
      (node?.map Value.ofNode).getD .null)⟩ ∧ k.Seats listed node? ∧
        ∀ m, m ∈ listed ∨ node? = some m → some m ∈ args.map Value.node? := by
  obtain ⟨composite, h⟩ := of_ensure_bind h
  split at h
  · cases h
    exact ⟨[], none, rfl, k.seats_none, fun m hm => by simp at hm⟩
  · obtain ⟨nodes, given, h⟩ := of_bind h
    obtain ⟨listed, node?, eq, seats, among⟩ := of_seat (by simpa using composite) h
    refine ⟨listed, node?, eq, seats, fun m hm => ?_⟩
    rw [Edit.nodeArgs_eq_ok given]
    exact List.mem_map_of_mem (among m hm)

/-- What a call writes, if it goes through: the slot it is about, which nodes of the kind have, with
a content that fits there, and nothing where the call clears. -/
structure Settles (k : Kind) (call : Call) (r : Σ s : Slot, s.Content) : Prop where
  slot : call.slot? = some r.1
  fits : r.1.Fits k r.2
  content : if call.clears then r.2 = r.1.absent else r.1.present r.2 = true

theorem settles_data {source : Shared} {options : Dict}
    (h : (data source options).verdict k = .ok r) : (data source options).Settles k r := by
  obtain ⟨carries, h⟩ := of_ensure_bind h
  split at h
  · rename_i null
    cases h
    exact ⟨rfl, ⟨carries, .inl rfl⟩, (if_pos null).mpr rfl⟩
  · rename_i given
    obtain ⟨reference, made, h⟩ := of_bind h
    cases h
    exact ⟨rfl, ⟨carries, .inr ⟨reference, rfl, DataReference.ofSource_oneSource made⟩⟩,
      (if_neg given).mpr rfl⟩

theorem settles_inner {args : List Value}
    (h : (inner args).verdict k = .ok r) : (inner args).Settles k r := by
  obtain ⟨listed, node?, eq, seats, _⟩ := of_verdict_inner h
  obtain ⟨_, h⟩ := of_ensure_bind h
  split at h
  · rename_i null
    cases h
    exact ⟨rfl, ⟨[], none, rfl, rfl, k.seats_none⟩, (if_pos null).mpr rfl⟩
  · rename_i given
    subst eq
    exact ⟨rfl, ⟨listed, node?, rfl, rfl, seats⟩, (if_neg given).mpr rfl⟩

theorem settles_mark {type : Value} {options : Dict}
    (h : (mark type options).verdict k = .ok r) : (mark type options).Settles k r := by
  obtain ⟨_, h⟩ := of_ensure_bind h
  split at h
  · rename_i null
    cases h
    exact ⟨rfl, trivial, (if_pos null).mpr rfl⟩
  · rename_i given
    obtain ⟨m, _, h⟩ := of_bind h
    cases h
    exact ⟨rfl, trivial, (if_neg given).mpr rfl⟩

theorem settles_encode {channel field dataType : Value} {options : Dict}
    (h : (encode channel field dataType options).verdict k = .ok r) :
    (encode channel field dataType options).Settles k r := by
  obtain ⟨carries, h⟩ := of_ensure_bind h
  obtain ⟨c, named, h⟩ := of_bind h
  obtain ⟨may, h⟩ := of_ensure_bind h
  have facet : k = .facet → c.isFacetChannel = true := by
    rintro rfl
    exact may
  have slot : (encode channel field dataType options).slot? = some (.channel c) := by
    rw [slot?, named]
    rfl
  split at h
  · rename_i null
    cases h
    exact ⟨slot, ⟨carries, facet, fun w hw => by cases hw⟩, (if_pos null).mpr rfl⟩
  · rename_i given
    obtain ⟨binding, _, h⟩ := of_bind h
    obtain ⟨type, _, h⟩ := of_bind h
    cases h
    exact ⟨slot, ⟨carries, facet, fun w hw => by cases hw; exact ⟨_, rfl⟩⟩,
      (if_neg given).mpr rfl⟩

theorem settles_bindAxis {axis : Axis} {channel fields : Value}
    (h : (bindAxis axis channel fields).verdict k = .ok r) :
    (bindAxis axis channel fields).Settles k r := by
  obtain ⟨repeated, h⟩ := of_ensure_bind h
  have kind : k = .repeated := by simpa using repeated
  split at h
  · rename_i null
    cases h
    exact ⟨rfl, ⟨kind, .inl ⟨rfl, rfl⟩⟩, (if_pos null).mpr rfl⟩
  · rename_i given
    obtain ⟨c, _, h⟩ := of_bind h
    obtain ⟨names, checked, h⟩ := of_bind h
    cases h
    exact ⟨rfl, ⟨kind, .inr ⟨names, c, rfl, rfl, Edit.fieldsArg_texts checked⟩⟩,
      (if_neg given).mpr rfl⟩

theorem settles_transform {items : List Value}
    (h : (transform items).verdict k = .ok r) : (transform items).Settles k r := by
  simp only [verdict] at h
  split at h
  · rename_i null
    cases h
    exact ⟨rfl, trivial, (if_pos null).mpr rfl⟩
  · rename_i given
    obtain ⟨transforms, _, h⟩ := of_bind h
    cases h
    exact ⟨rfl, trivial, (if_neg given).mpr rfl⟩

theorem settles_projection {type : Value} {options : Dict}
    (h : (projection type options).verdict k = .ok r) : (projection type options).Settles k r := by
  obtain ⟨_, h⟩ := of_ensure_bind h
  split at h
  · rename_i null
    cases h
    exact ⟨rfl, trivial, (if_pos null).mpr rfl⟩
  · rename_i given
    split at h
    · cases h
      exact ⟨rfl, trivial, (if_neg given).mpr rfl⟩
    · cases h

theorem settles_property {p : Property} {value : Value}
    (h : (property p value).verdict k = .ok r) : (property p value).Settles k r := by
  obtain ⟨_, h⟩ := of_ensure_bind h
  split at h
  · rename_i null
    cases h
    exact ⟨rfl, trivial, (if_pos null).mpr rfl⟩
  · rename_i given
    split at h
    · obtain ⟨_, h⟩ := of_ensure_bind h
      cases h
      exact ⟨rfl, trivial, (if_neg given).mpr rfl⟩
    · cases h

theorem settles_of_verdict {call : Call} (h : call.verdict k = .ok r) : call.Settles k r := by
  cases call with
  | data => exact settles_data h
  | inner => exact settles_inner h
  | mark => exact settles_mark h
  | encode => exact settles_encode h
  | bindAxis => exact settles_bindAxis h
  | transform => exact settles_transform h
  | projection => exact settles_projection h
  | property => exact settles_property h

end Call

end ChartTree
