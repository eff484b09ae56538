import ChartTree.Proofs.Node.Verdict

/-!
# Refused calls leave no trace

A call that is refused leaves its node as it was, for a setter checks everything before it changes
anything. This needs no more of a node than dictionaries in the places of dictionaries, with
anything in them; so writes behind the setters may have taken away what the setters rely on, and
then the call is refused for want of it. Calls keep the dictionaries, and so do copies.
-/

namespace ChartTree

/-- A dictionary, whichever object it is. -/
def Value.IsMap (v : Value) : Prop :=
  ∃ id entries, v = ⟨id, .dict entries⟩

/-- A node with dictionaries in the places of its dictionaries. -/
structure Node.Tidy (n : Node) : Prop where
  properties : n.properties.IsMap
  channels : n.repeatChannels.IsMap
  maps : ∀ key ∈ mapKeys, ∀ v, n.properties.field? key = some v → v.IsMap

/-- The reasons for which setters refuse what they are given. -/
def BuildError.OfSetter (reason : BuildError) : Prop :=
  reason.family = .context ∨ reason.family = .value ∨ reason.family = .child

/-- What a call may be refused for: its arguments, or a dictionary of definitions that is gone. -/
def Node.MayRefuse (n : Node) (reason : BuildError) : Prop :=
  reason.OfSetter ∨
    ∃ key ∈ mapKeys, n.properties.field? key = none ∧ reason = .misuse (.missing (.string key))

namespace Value.IsMap

variable {v : Value}

theorem withEntry (h : v.IsMap) (key : String) (new : Value) :
    ∃ w, v.withEntry (.string key) new = .ok w ∧ w.IsMap ∧ w.field? key = some new ∧
      ∀ other, key ≠ other → w.field? other = v.field? other := by
  obtain ⟨id, d, rfl⟩ := h
  exact ⟨⟨id, .dict (Dict.insert d (.string key) new)⟩, rfl, ⟨id, _, rfl⟩,
    Dict.get?_insert_self d key new, fun other differ => Dict.get?_insert_of_ne d differ new⟩

theorem withoutName (h : v.IsMap) (key : String) :
    ∃ w, v.withoutName key = .ok w ∧ w.IsMap ∧ w.field? key = none ∧
      ∀ other, key ≠ other → w.field? other = v.field? other := by
  obtain ⟨id, d, rfl⟩ := h
  exact ⟨⟨id, .dict (Dict.erase d (.string key))⟩, rfl, ⟨id, _, rfl⟩,
    Dict.get?_erase_self d key, fun other differ => Dict.get?_erase_of_ne d differ⟩

theorem entryAt (h : v.IsMap) (key : String) :
    v.entryAt (.string key) = match v.field? key with
      | some w => .ok w
      | none => .error (.missing (.string key)) := by
  obtain ⟨id, d, rfl⟩ := h
  have looked : Dict.lookUp? d (.string key) = .ok (Dict.get? d (.string key)) := rfl
  have field : Value.field? ⟨id, .dict d⟩ key = Dict.get? d (.string key) := rfl
  simp only [Value.entryAt, Value.content, looked, field, bind, Except.bind]
  cases Dict.get? d (.string key) <;> rfl

end Value.IsMap

namespace Edit

variable {α : Type} {n : Node}

/-- An edit of a node either leaves a tidy one behind or is refused and leaves the node as it is. -/
def Careful (e : Edit Unit) (n : Node) : Prop :=
  match e.run n with
  | .ok _ m => m.Tidy
  | .error reason m => m = n ∧ n.MayRefuse reason

theorem careful_get {f : Node → Edit Unit} (h : Careful (f n) n) : Careful (get >>= f) n :=
  h

theorem careful_throw {reason : BuildError} (may : n.MayRefuse reason) :
    Careful (throw reason) n :=
  ⟨rfl, may⟩

theorem careful_require {condition : Bool} {reason : BuildError} {f : Unit → Edit Unit}
    (family : reason.OfSetter)
    (h : condition = true → Careful (f ()) n) : Careful (require condition reason >>= f) n := by
  cases condition with
  | false => exact careful_throw (.inl family)
  | true => exact h rfl

theorem careful_checked {result : Except BuildError α} {f : α → Edit Unit}
    (refused : ∀ reason, result = .error reason → reason.OfSetter)
    (h : ∀ a, result = .ok a → Careful (f a) n) : Careful (checked result >>= f) n := by
  cases result with
  | error reason => exact careful_throw (.inl (refused reason rfl))
  | ok a => exact h a rfl

theorem careful_reached {result : Except Misuse α} {f : α → Edit Unit} {a : α}
    (eq : result = .ok a) (h : Careful (f a) n) : Careful (reached result >>= f) n := by
  rw [eq]
  exact h

theorem careful_modify {g : Node → Node} (h : (g n).Tidy) : Careful (modify g) n :=
  h

/-! ### Changes of one place -/

/-- An edit of a node is not refused and leaves a tidy node behind. -/
def GoesThrough (e : Edit Unit) (n : Node) : Prop :=
  ∃ m, e.run n = .ok () m ∧ m.Tidy

theorem GoesThrough.careful {e : Edit Unit} (h : GoesThrough e n) : Careful e n := by
  obtain ⟨m, run, tidy⟩ := h
  rw [Careful, run]
  exact tidy

theorem GoesThrough.then {e f : Edit Unit} (h : GoesThrough e n)
    (next : ∀ m, m.Tidy → GoesThrough f m) : GoesThrough (e >>= fun _ => f) n := by
  obtain ⟨m, run, tidy⟩ := h
  obtain ⟨l, run', tidy'⟩ := next m tidy
  exact ⟨l, (run_bind_ok run).trans run', tidy'⟩

theorem run_reached {e : Except Misuse α} {a : α} (eq : e = .ok a) (f : α → Edit Unit) :
    (reached e >>= f).run n = (f a).run n := by
  rw [eq]
  rfl

theorem goes_put (h : n.Tidy) {key : String} {v : Value} (fits : key ∈ mapKeys → v.IsMap) :
    GoesThrough (put key v) n := by
  obtain ⟨p, written, map, here, others⟩ := h.properties.withEntry key v
  refine ⟨{ n with properties := p }, run_reached written _, map, h.channels,
    fun other mem w held => ?_⟩
  by_cases same : key = other
  · subst same
    cases here.symm.trans held
    exact fits mem
  · exact h.maps other mem w ((others other same).symm.trans held)

theorem goes_drop (h : n.Tidy) (key : String) : GoesThrough (drop key) n := by
  obtain ⟨p, removed, map, here, others⟩ := h.properties.withoutName key
  refine ⟨{ n with properties := p }, run_reached removed _, map, h.channels,
    fun other mem w held => ?_⟩
  by_cases same : key = other
  · subst same
    cases here.symm.trans held
  · exact h.maps other mem w ((others other same).symm.trans held)

theorem goes_putChannel (h : n.Tidy) (axis : Axis) (channel : String) :
    GoesThrough (putChannel axis channel) n := by
  obtain ⟨channels, written, map, _⟩ := h.channels.withEntry axis.name (.string channel)
  exact ⟨{ n with repeatChannels := channels }, run_reached written _, h.properties, map, h.maps⟩

theorem goes_dropChannel (h : n.Tidy) (axis : Axis) : GoesThrough (dropChannel axis) n := by
  obtain ⟨channels, removed, map, _⟩ := h.channels.withoutName axis.name
  exact ⟨{ n with repeatChannels := channels }, run_reached removed _, h.properties, map, h.maps⟩

/-- What stands under the key of a dictionary of definitions is a dictionary; if nothing does, the
edit is refused before anything is changed. -/
theorem careful_held (h : n.Tidy) {key : String} (mem : key ∈ mapKeys) {f : Value → Edit Unit}
    (found : ∀ v, v.IsMap → Careful (f v) n) : Careful (reached (held n key) >>= f) n := by
  have entry := h.properties.entryAt key
  cases stands : n.properties.field? key with
  | none =>
    rw [stands] at entry
    rw [held, entry]
    exact careful_throw (.inr ⟨key, mem, stands, rfl⟩)
  | some v =>
    rw [stands] at entry
    exact careful_reached entry (found v (h.maps key mem v stands))

/-! ### Arguments -/

theorem map_eq_error {β : Type} {result : Except BuildError α} {f : α → β} {reason : BuildError} :
    result.map f = .error reason ↔ result = .error reason := by
  cases result <;> simp [Except.map]

theorem family_channelArg {v : Value} {reason : BuildError} (h : channelArg v = .error reason) :
    reason.family = .value := by
  simp only [channelArg] at h
  split at h
  · split at h <;> cases h
    rfl
  · cases h
    rfl

theorem family_markArg {v : Value} {reason : BuildError} (h : markArg v = .error reason) :
    reason.family = .value := by
  simp only [markArg] at h
  split at h
  · split at h <;> cases h
    rfl
  · cases h
    rfl

theorem family_dataTypeArg {v : Value} {reason : BuildError} (h : dataTypeArg v = .error reason) :
    reason.family = .value := by
  simp only [dataTypeArg] at h
  split at h <;> cases h
  rfl

theorem family_fieldArg {v : Value} {reason : BuildError} (h : fieldArg v = .error reason) :
    reason.family = .value := by
  simp only [fieldArg] at h
  split at h
  · cases h
  · cases h
  · split at h <;> cases h
    rfl

theorem family_fieldNames {vs : List Value} {reason : BuildError}
    (h : fieldNames vs = .error reason) : reason.family = .value := by
  induction vs with
  | nil => cases h
  | cons v vs ih =>
    rw [fieldNames] at h
    split at h
    · exact ih (map_eq_error.1 h)
    · cases h
      rfl

theorem family_fieldsArg {v : Value} {reason : BuildError} (h : fieldsArg v = .error reason) :
    reason.family = .value := by
  simp only [fieldsArg] at h
  split at h
  · exact family_fieldNames h
  · exact family_fieldNames h
  · cases h
    rfl

theorem family_transformArgs {vs : List Value} {reason : BuildError}
    (h : transformArgs vs = .error reason) : reason.family = .value := by
  induction vs with
  | nil => cases h
  | cons v vs ih =>
    rw [transformArgs] at h
    split at h
    · exact ih (map_eq_error.1 h)
    · cases h
      rfl

theorem family_nodeArgs {vs : List Value} {reason : BuildError}
    (h : nodeArgs vs = .error reason) : reason.family = .child := by
  induction vs with
  | nil => cases h
  | cons v vs ih =>
    rw [nodeArgs] at h
    split at h
    · exact ih (map_eq_error.1 h)
    · cases h
      rfl

theorem family_ofSource {source : Shared} {options : Dict} {reason : BuildError}
    (h : DataReference.ofSource source options = .error reason) : reason.family = .value := by
  simp only [DataReference.ofSource] at h
  split at h
  · cases h
    rfl
  · split at h <;> cases h
    rfl

/-! ### Setters -/

variable (h : n.Tidy)

include h

theorem careful_data (source : Shared) (options : Dict) : Careful (data source options) n := by
  have changed : ∀ slot : DataSlot, Careful (modify fun n => { n with data := slot }) n :=
    fun slot => careful_modify ⟨h.properties, h.channels, h.maps⟩
  refine careful_get (careful_require (.inl rfl) fun _ => ?_)
  split
  · exact changed .empty
  · exact careful_checked (fun _ refused => .inr (.inl (family_ofSource refused)))
      fun r _ => changed (.reference r)

theorem careful_inner (args : List Value) : Careful (inner args) n := by
  have cleared : Careful (modify fun n => { n with children := .list [], child := .null }) n :=
    careful_modify ⟨h.properties, h.channels, h.maps⟩
  have wrapped : ∀ child : Value, Careful (modify fun n => { n with child := child }) n :=
    fun _ => careful_modify ⟨h.properties, h.channels, h.maps⟩
  have listed : ∀ children : Value, Careful (modify fun n => { n with children := children }) n :=
    fun _ => careful_modify ⟨h.properties, h.channels, h.maps⟩
  refine careful_get (careful_require (.inl rfl) fun _ => ?_)
  split
  · exact cleared
  · refine careful_checked (fun _ refused => .inr (.inr (family_nodeArgs refused)))
      fun nodes _ => ?_
    split
    · split
      · exact wrapped .null
      · exact careful_require (.inr (.inr rfl)) fun _ => wrapped _
    · split
      · exact careful_throw (.inl (.inr (.inr rfl)))
      · exact listed _

theorem careful_mark (type : Value) (options : Dict) : Careful (mark type options) n := by
  refine careful_get (careful_require (.inl rfl) fun _ => ?_)
  split
  · exact (goes_drop h "mark").careful
  · exact careful_checked (fun _ refused => .inr (.inl (family_markArg refused))) fun m _ =>
      (goes_put h fun _ => ⟨none, _, rfl⟩).careful

theorem careful_encode (channel field dataType : Value) (options : Dict) :
    Careful (encode channel field dataType options) n := by
  have defined : ∀ v : Value, v.IsMap → Careful (put n.kind.channelsKey v) n :=
    fun v map => (goes_put h fun _ => map).careful
  refine careful_get (careful_require (.inl rfl) fun _ =>
    careful_checked (fun _ refused => .inr (.inl (family_channelArg refused))) fun c _ =>
      careful_require (.inl rfl) fun _ =>
        careful_held h n.kind.channelsKey_mem_mapKeys fun channels map => ?_)
  split
  · obtain ⟨w, removed, map, _⟩ := map.withoutName c.storedName
    exact careful_reached removed (defined w map)
  · refine careful_checked (fun _ refused => .inr (.inl (family_fieldArg refused)))
      fun binding _ => careful_checked (fun _ refused => .inr (.inl (family_dataTypeArg refused)))
        fun type _ => ?_
    obtain ⟨w, written, map, _⟩ := map.withEntry c.storedName
      (.dict (Dict.merge (Dict.ofFields (binding ++ [("type", .string type.name)])) options))
    exact careful_reached written (defined w map)

theorem careful_bindAxis (axis : Axis) (channel fields : Value) :
    Careful (bindAxis axis channel fields) n := by
  have repeats : ∀ v : Value, v.IsMap → GoesThrough (put "repeat" v) n :=
    fun v map => goes_put h fun _ => map
  refine careful_get (careful_require (.inl rfl) fun _ => ?_)
  split
  · refine careful_held h (by decide) fun axes map => ?_
    obtain ⟨w, removed, map, _⟩ := map.withoutName axis.name
    exact careful_reached removed
      ((repeats w map).then fun m tidy => goes_dropChannel tidy axis).careful
  · refine careful_checked (fun _ refused => .inr (.inl (family_channelArg refused))) fun c _ =>
      careful_checked (fun _ refused => .inr (.inl (family_fieldsArg refused))) fun names _ =>
        careful_held h (by decide) fun axes map => ?_
    obtain ⟨w, written, map, _⟩ := map.withEntry axis.name (.list names)
    exact careful_reached written
      ((repeats w map).then fun m tidy => goes_putChannel tidy axis c.storedName).careful

theorem careful_transform (items : List Value) : Careful (transform items) n := by
  rw [transform]
  split
  · exact (goes_drop h "transform").careful
  · exact careful_checked (fun _ refused => .inr (.inl (family_transformArgs refused)))
      fun transforms _ => (goes_put h fun mem => absurd mem (by decide)).careful

theorem careful_projection (type : Value) (options : Dict) :
    Careful (projection type options) n := by
  refine careful_get (careful_require (.inl rfl) fun _ => ?_)
  split
  · exact (goes_drop h "projection").careful
  · split
    · exact (goes_put h fun _ => ⟨none, _, rfl⟩).careful
    · exact careful_throw (.inl (.inr (.inl rfl)))

theorem careful_property (p : Property) (value : Value) : Careful (property p value) n := by
  have simple : p.key ∉ mapKeys := Entry.key_not_mem_mapKeys (.simple p)
  refine careful_get (careful_require (.inl rfl) fun _ => ?_)
  split
  · exact (goes_drop h p.key).careful
  · split
    · exact careful_require (.inr (.inl rfl)) fun _ =>
        (goes_put h fun mem => absurd mem simple).careful
    · exact careful_throw (.inl (.inr (.inl rfl)))

end Edit

/-- A call on a tidy node leaves it tidy, or is refused and leaves it as it is. -/
theorem Call.careful {n : Node} (h : n.Tidy) (call : Call) : call.edit.Careful n := by
  cases call with
  | data source options => exact Edit.careful_data h source options
  | inner args => exact Edit.careful_inner h args
  | mark type options => exact Edit.careful_mark h type options
  | encode channel field dataType options =>
    exact Edit.careful_encode h channel field dataType options
  | bindAxis axis channel fields => exact Edit.careful_bindAxis h axis channel fields
  | transform items => exact Edit.careful_transform h items
  | projection type options => exact Edit.careful_projection h type options
  | property p value => exact Edit.careful_property h p value

end ChartTree
