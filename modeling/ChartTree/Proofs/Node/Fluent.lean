import ChartTree.Proofs.Node.Verdict
import Mathlib.Data.List.Induction

/-!
# Chains of calls

Calls on a node one after the other. What a call answers does not depend on the calls before it,
every slot holds what the last call on it that went through would have left there alone, and the
keys of every dictionary stand in the order in which they were first written since they were last
absent.
-/

namespace ChartTree

namespace Call

def answer (call : Call) (n : Node) : Except BuildError Unit :=
  match call.edit.run n with
  | .ok _ _ => .ok ()
  | .error reason _ => .error reason

def on (call : Call) (n : Node) : Node :=
  match call.edit.run n with
  | .ok _ m => m
  | .error _ m => m

/-- Whether a call goes through on a node and is about a slot. -/
def lands (call : Call) (n : Node) (s : Slot) : Bool :=
  (call.answer n).isOk && call.slot? == some s

end Call

def Node.after (n : Node) (calls : List Call) : Node :=
  calls.foldl (fun n call => call.on n) n

/-- A dictionary of a node whose keys calls write. -/
inductive Area where
  | properties
  | definitions
  | repeatedFields
  | boundChannels
deriving DecidableEq, Repr

def Value.text? (v : Value) : Option String :=
  match v.content with
  | .string s => some s
  | _ => none

/-- The keys of a dictionary in order, if all of them are texts. -/
def Dict.names? : Dict → Option (List String)
  | [] => some []
  | e :: d => e.1.text?.bind fun name => (names? d).map (name :: ·)

def Value.names? (v : Value) : Option (List String) :=
  match v with
  | ⟨_, .dict d⟩ => Dict.names? d
  | _ => none

/-- The keys of an area of a node in order, if the node has the area. -/
def Node.keys? (n : Node) : Area → Option (List String)
  | .properties => n.properties.names?
  | .definitions => (n.properties.field? n.kind.channelsKey).bind Value.names?
  | .repeatedFields => (n.properties.field? "repeat").bind Value.names?
  | .boundChannels => n.repeatChannels.names?

/-- The key of a slot in an area. -/
def Slot.key? : Slot → Area → Option String
  | .entry e, .properties => some e.key
  | .channel c, .definitions => some c.storedName
  | .axis a, .repeatedFields | .axis a, .boundChannels => some a.name
  | _, _ => none

/-- The keys that are written and not taken away after that, at every time they are written. -/
def settled : List (String × Bool) → List String
  | [] => []
  | (key, written) :: later =>
    if written && !later.contains (key, false) then key :: settled later else settled later

/-- The keys that stand after they were written or taken away, in the order in which each of them
was first written since it was last absent. -/
def standing (changes : List (String × Bool)) : List String :=
  (settled changes).eraseDups

/-- The key that a call on a node writes or takes away in an area, if it goes through. -/
def Call.change? (call : Call) (n : Node) (area : Area) : Option (String × Bool) :=
  if (call.answer n).isOk then
    (call.slot?.bind (·.key? area)).map fun key => (key, !call.clears)
  else none

/-! ### Single calls -/

namespace Call

variable {n : Node} (h : n.Shaped) (call : Call)

include h

theorem answer_eq : call.answer n = (call.verdict n.kind).map fun _ => () := by
  have run : call.edit.run n = _ := call.follows_verdict h
  rw [answer, run]
  cases call.verdict n.kind <;> rfl

theorem on_eq : call.on n = match call.verdict n.kind with
    | .ok ⟨s, content⟩ => n.put s content
    | .error _ => n := by
  have run : call.edit.run n = _ := call.follows_verdict h
  rw [on, run]
  cases call.verdict n.kind <;> rfl

theorem kind_on : (call.on n).kind = n.kind := by
  rw [call.on_eq h]
  cases call.verdict n.kind with
  | error reason => rfl
  | ok r => exact Node.kind_put ..

theorem shaped_on : (call.on n).Shaped := by
  rw [call.on_eq h]
  cases verdict : call.verdict n.kind with
  | error reason => exact h
  | ok r => exact h.put (settles_of_verdict verdict).fits

end Call

namespace Node

variable {n : Node} (h : n.Shaped)

include h

theorem after_shaped (calls : List Call) :
    (n.after calls).Shaped ∧ (n.after calls).kind = n.kind := by
  induction calls generalizing n with
  | nil => exact ⟨h, rfl⟩
  | cons call calls ih =>
    obtain ⟨shaped, kind⟩ := ih (call.shaped_on h)
    exact ⟨shaped, kind.trans (call.kind_on h)⟩

theorem answer_after (call : Call) (calls : List Call) :
    call.answer (n.after calls) = (call.verdict n.kind).map fun _ => () := by
  obtain ⟨shaped, kind⟩ := after_shaped h calls
  rw [call.answer_eq shaped, kind]

end Node

/-! ### Slots -/

theorem Node.after_concat (n : Node) (calls : List Call) (call : Call) :
    n.after (calls ++ [call]) = call.on (n.after calls) := by
  rw [after, List.foldl_append]
  rfl

/-- Every slot holds what the last call that landed there leaves alone. -/
theorem Node.read_after {n : Node} (h : n.Shaped) (calls : List Call) (s : Slot) :
    (n.after calls).read s = match (calls.filter (·.lands n s)).getLast? with
      | some call => (call.on n).read s
      | none => n.read s := by
  induction calls using List.reverseRecOn with
  | nil => rfl
  | append_singleton calls call ih =>
    obtain ⟨shaped, kind⟩ := after_shaped h calls
    rw [after_concat, call.on_eq shaped, kind, List.filter_append]
    cases verdict : call.verdict n.kind with
    | error reason =>
      have misses : call.lands n s = false := by
        rw [Call.lands, call.answer_eq h, verdict]
        rfl
      have skipped : [call].filter (·.lands n s) = [] :=
        List.filter_cons_of_neg (by simp [misses])
      rw [skipped, List.append_nil]
      exact ih
    | ok r =>
      obtain ⟨t, content⟩ := r
      obtain ⟨slot, fits, _⟩ := Call.settles_of_verdict verdict
      by_cases here : t = s
      · subst here
        have lands : call.lands n t = true := by
          rw [Call.lands, call.answer_eq h, verdict, slot]
          exact beq_self_eq_true _
        have alone : call.on n = n.put t content := by
          rw [call.on_eq h, verdict]
        have last : [call].filter (·.lands n t) = [call] := List.filter_cons_of_pos lands
        rw [last, List.getLast?_concat]
        show ((n.after calls).put t content).read t = (call.on n).read t
        rw [alone, read_put_self shaped.spec (by rwa [kind]), read_put_self h.spec fits]
      · have misses : call.lands n s = false := by
          rw [Call.lands, slot]
          simp [here]
        have skipped : [call].filter (·.lands n s) = [] :=
          List.filter_cons_of_neg (by simp [misses])
        rw [skipped, List.append_nil]
        exact (read_put_of_ne shaped.spec content here).trans ih

theorem Call.read_on_of_clears {n : Node} (h : n.Shaped) {call : Call} {s : Slot}
    (lands : call.lands n s = true) (clears : call.clears = true) :
    (call.on n).read s = s.absent := by
  rw [Call.lands, call.answer_eq h] at lands
  obtain ⟨through, about⟩ := Bool.and_eq_true_iff.1 lands
  cases verdict : call.verdict n.kind with
  | error reason =>
    rw [verdict] at through
    cases through
  | ok r =>
    obtain ⟨t, content⟩ := r
    obtain ⟨slot, fits, cleared⟩ := settles_of_verdict verdict
    have same : t = s := Option.some.inj (slot.symm.trans (beq_iff_eq.1 about))
    subst same
    rw [clears, if_pos rfl] at cleared
    have gone : content = t.absent := cleared
    rw [call.on_eq h, verdict]
    exact (Node.read_put_self h.spec fits).trans gone

/-! ### Keys -/

/-- The keys after one of them is written or taken away. -/
def amended (names : List String) (key : String) (written : Bool) : List String :=
  if written then if key ∈ names then names else names ++ [key]
  else names.filter (· ≠ key)

theorem settled_concat_true (changes : List (String × Bool)) (key : String) :
    settled (changes ++ [(key, true)]) = settled changes ++ [key] := by
  induction changes with
  | nil => rfl
  | cons change changes ih =>
    obtain ⟨name, written⟩ := change
    have later : (changes ++ [(key, true)]).contains (name, false) =
        changes.contains (name, false) := by simp
    rw [List.cons_append, settled, settled, later, ih]
    split <;> rfl

theorem settled_concat_false (changes : List (String × Bool)) (key : String) :
    settled (changes ++ [(key, false)]) = (settled changes).filter (· ≠ key) := by
  induction changes with
  | nil => rfl
  | cons change changes ih =>
    obtain ⟨name, written⟩ := change
    rw [List.cons_append, settled, settled, ih]
    by_cases same : name = key
    · subst same
      cases written <;> cases changes.contains (name, false) <;> simp
    · cases written <;> cases kept : changes.contains (name, false) <;>
        simp_all

theorem eraseDups_concat (names : List String) (key : String) :
    (names ++ [key]).eraseDups =
      if key ∈ names then names.eraseDups else names.eraseDups ++ [key] := by
  rw [List.eraseDups_append]
  split
  · rename_i mem
    rw [List.removeAll, List.filter_cons_of_neg (by simp [mem])]
    exact List.append_nil _
  · rename_i absent
    rw [List.removeAll, List.filter_cons_of_pos (by simp [absent])]
    rfl

theorem eraseDups_filter (names : List String) (p : String → Bool) :
    (names.filter p).eraseDups = names.eraseDups.filter p := by
  induction names using List.reverseRecOn with
  | nil => rfl
  | append_singleton names key ih =>
    rw [List.filter_append, eraseDups_concat]
    by_cases kept : p key = true
    · have last : [key].filter p = [key] := List.filter_cons_of_pos kept
      have mem : key ∈ names.filter p ↔ key ∈ names := by simp [kept]
      rw [last, eraseDups_concat, ih]
      by_cases here : key ∈ names
      · rw [if_pos here, if_pos (mem.2 here)]
      · rw [if_neg here, if_neg (mt mem.1 here), List.filter_append, last]
    · have last : [key].filter p = [] := List.filter_cons_of_neg kept
      rw [last, List.append_nil, ih]
      split
      · rfl
      · rw [List.filter_append, last, List.append_nil]

theorem standing_concat (changes : List (String × Bool)) (key : String) (written : Bool) :
    standing (changes ++ [(key, written)]) = amended (standing changes) key written := by
  rw [standing, standing, amended]
  cases written with
  | true =>
    rw [settled_concat_true, eraseDups_concat, if_pos rfl]
    exact ite_congr (by rw [List.mem_eraseDups]) (fun _ => rfl) fun _ => rfl
  | false =>
    rw [settled_concat_false, eraseDups_filter]
    rfl

example : standing [("x", true), ("y", true), ("x", false), ("x", true)] = ["y", "x"] := by decide

theorem Value.text?_eq_some_iff {v : Value} {s : String} :
    v.text? = some s ↔ v.content = .string s := by
  rw [text?]
  cases v.content <;> simp

namespace Dict

variable (d : Dict) (key : String)

theorem names?_insert (v : Value) :
    names? (insert d (.string key) v) = d.names?.map (amended · key true) := by
  induction d with
  | nil => rfl
  | cons e d ih =>
    by_cases here : e.1.content = .string key
    · rw [insert_cons_of_content here, names?, names?, Value.text?_eq_some_iff.2 here]
      cases names? d with
      | none => rfl
      | some names => simp [amended]
    · rw [insert_cons_of_content_ne here, names?, names?, ih]
      cases text : e.1.text? with
      | none => rfl
      | some name =>
        have apart : key ≠ name := by
          rintro rfl
          exact here (Value.text?_eq_some_iff.1 text)
        cases names? d with
        | none => rfl
        | some names =>
          simp only [Option.map_some, Option.bind_some, amended, if_pos, List.mem_cons, apart,
            false_or]
          split <;> rfl

theorem names?_erase :
    names? (erase d (.string key)) = d.names?.map (amended · key false) := by
  induction d with
  | nil => rfl
  | cons e d ih =>
    by_cases here : e.1.content = .string key
    · rw [erase_cons_of_content here, names?, ih, Value.text?_eq_some_iff.2 here]
      cases names? d with
      | none => rfl
      | some names => simp [amended]
    · rw [erase_cons_of_content_ne here, names?, names?, ih]
      cases text : e.1.text? with
      | none => rfl
      | some name =>
        have apart : name ≠ key := by
          rintro rfl
          exact here (Value.text?_eq_some_iff.1 text)
        cases names? d with
        | none => rfl
        | some names => simp [amended, apart]

theorem mem_names {names : List String} (all : d.names? = some names) {v : Value}
    (held : get? d (.string key) = some v) : key ∈ names := by
  induction d generalizing names with
  | nil => cases held
  | cons e d ih =>
    rw [names?] at all
    obtain ⟨name, text, mapped⟩ := Option.bind_eq_some_iff.1 all
    obtain ⟨rest, others, rfl⟩ := Option.map_eq_some_iff.1 mapped
    by_cases here : e.1.content = .string key
    · rw [Value.text?_eq_some_iff.2 here] at text
      cases text
      exact List.mem_cons_self ..
    · rw [get?_of_content_ne here] at held
      exact List.mem_cons_of_mem _ (ih others held)

end Dict

namespace Value

theorem names?_assign (v : Value) (key : String) (new : Option Value) :
    (v.assign key new).names? = v.names?.map (amended · key new.isSome) := by
  obtain ⟨id, content⟩ := v
  cases content with
  | dict d =>
    cases new with
    | none => exact Dict.names?_erase d key
    | some w => exact Dict.names?_insert d key w
  | _ => rfl

theorem names?_field?_update {v : Value} (dict : v.IsDict) (key name : String)
    (new : Option Value) : ((v.update key (·.assign name new)).field? key).bind names? =
      ((v.field? key).bind names?).map (amended · name new.isSome) := by
  rw [field?_update_self dict]
  cases v.field? key with
  | none => rfl
  | some w => exact w.names?_assign name new

theorem names?_update (v : Value) (key : String) (change : Value → Value) :
    (v.update key change).names? = v.names? := by
  rw [update]
  cases held : v.field? key with
  | none => rfl
  | some w =>
    show (v.assign key (some (change w))).names? = v.names?
    rw [names?_assign]
    cases all : v.names? with
    | none => rfl
    | some names =>
      have mem : key ∈ names := by
        obtain ⟨id, content⟩ := v
        cases content with
        | dict d => exact Dict.mem_names d key all held
        | _ => cases all
      rw [Option.map_some, amended]
      exact congrArg some (if_pos mem)

end Value

theorem Slot.present_absent {s : Slot} {area : Area} {key : String}
    (keyed : s.key? area = some key) : s.present s.absent = false := by
  cases s <;> first | rfl | cases keyed

/-- The keys of an area change with what is written under the key of a slot. -/
theorem Node.keys?_put {n : Node} (h : n.toSpec.Shaped) {s : Slot} {content : s.Content}
    (fits : s.Fits n.kind content) (area : Area) :
    (n.put s content).keys? area = match s.key? area with
      | some key => (n.keys? area).map (amended · key (s.present content))
      | none => n.keys? area := by
  obtain ⟨entries, definitions, bindings, shaped⟩ := h
  have dict : n.properties.IsDict := ⟨entries, shaped.properties⟩
  cases s with
  | data => cases area <;> rfl
  | inner => cases area <;> rfl
  | entry e =>
    have other {key : String} (apart : e.key ≠ key) :=
      congrArg (·.bind Value.names?) (Value.field?_assign_of_ne dict apart content)
    cases area with
    | properties => exact Value.names?_assign _ e.key content
    | definitions => exact other (Entry.key_ne n.kind.channelsKey_mem_mapKeys)
    | repeatedFields => exact other (Entry.key_ne (by decide))
    | boundChannels => rfl
  | channel c =>
    cases area with
    | properties => exact Value.names?_update _ _ _
    | definitions => exact Value.names?_field?_update dict n.kind.channelsKey c.storedName content
    | repeatedFields =>
      exact congrArg (·.bind Value.names?)
        (Value.field?_update_of_ne dict n.kind.channelsKey_ne_repeat _)
    | boundChannels => rfl
  | axis a =>
    obtain ⟨fields, channel⟩ := content
    cases area with
    | properties => exact Value.names?_update _ _ _
    | definitions =>
      exact congrArg (·.bind Value.names?)
        (Value.field?_update_of_ne dict n.kind.channelsKey_ne_repeat.symm _)
    | repeatedFields => exact Value.names?_field?_update dict "repeat" a.name fields
    | boundChannels =>
      have both : channel.isSome = fields.isSome := by
        obtain ⟨_, ⟨rfl, rfl⟩ | ⟨names, c, rfl, rfl, _⟩⟩ := fits
        · rfl
        · rfl
      show (n.repeatChannels.assign a.name channel).names? = _
      rw [Value.names?_assign, both]
      rfl

theorem Node.keys?_after {n : Node} (h : n.Shaped) (area : Area)
    (start : (n.keys? area).map (fun keys => standing (keys.map (·, true))) = n.keys? area)
    (calls : List Call) :
    (n.after calls).keys? area = (n.keys? area).map fun keys =>
      standing (keys.map (·, true) ++ calls.filterMap (·.change? n area)) := by
  induction calls using List.reverseRecOn with
  | nil =>
    simp only [List.filterMap_nil, List.append_nil]
    exact start.symm
  | append_singleton calls call ih =>
    obtain ⟨shaped, kind⟩ := after_shaped h calls
    rw [after_concat, call.on_eq shaped, kind, List.filterMap_append]
    cases verdict : call.verdict n.kind with
    | error reason =>
      have changes : [call].filterMap (·.change? n area) = [] := by
        rw [List.filterMap_cons_none, List.filterMap_nil]
        rw [Call.change?, call.answer_eq h, verdict]
        rfl
      rw [changes, List.append_nil]
      exact ih
    | ok r =>
      obtain ⟨s, content⟩ := r
      obtain ⟨slot, fits, written⟩ := Call.settles_of_verdict verdict
      have change : call.change? n area = (s.key? area).map fun key => (key, !call.clears) := by
        rw [Call.change?, call.answer_eq h, verdict, slot]
        rfl
      show ((n.after calls).put s content).keys? area = _
      rw [keys?_put shaped.spec (by rwa [kind]), ih]
      cases key? : s.key? area with
      | none =>
        have changes : [call].filterMap (·.change? n area) = [] := by
          rw [List.filterMap_cons_none, List.filterMap_nil]
          rw [change, key?]
          rfl
        rw [changes, List.append_nil]
      | some key =>
        have changes : [call].filterMap (·.change? n area) = [(key, !call.clears)] := by
          rw [key?] at change
          exact List.filterMap_cons_some change
        have present : s.present content = !call.clears := by
          cases clears : call.clears with
          | true =>
            rw [clears, if_pos rfl] at written
            have cleared : content = s.absent := written
            rw [cleared]
            exact Slot.present_absent key?
          | false =>
            rw [clears, if_neg Bool.false_ne_true] at written
            exact written
        rw [changes, present]
        simp only [Option.map_map, Function.comp_def, ← standing_concat, List.append_assoc]

/-! ### Inner nodes as arguments -/

/-- What an argument is that is to be an inner node: the name of its type, and the kind of the node
if it is one. -/
def Value.role (v : Value) : String × Option Kind :=
  (v.typeName, v.node?.map NodeRef.kind)

theorem Value.isNull_of_role {v w : Value} (same : v.role = w.role) : v.isNull = w.isNull := by
  have null (v : Value) : v.isNull = (v.typeName == "NoneType") := by
    rw [isNull, typeName]
    cases v.content <;> rfl
  rw [null, null, (Prod.mk.inj same).1]

theorem Edit.nodeArgs_of_roles {vs ws : List Value} (same : vs.map Value.role = ws.map Value.role) :
    (nodeArgs vs).map (·.map NodeRef.kind) = (nodeArgs ws).map (·.map NodeRef.kind) := by
  induction vs generalizing ws with
  | nil =>
    cases ws with
    | nil => rfl
    | cons w ws => cases same
  | cons v vs ih =>
    cases ws with
    | nil => cases same
    | cons w ws =>
      obtain ⟨first, rest⟩ := List.cons.inj same
      obtain ⟨type, kind⟩ := Prod.mk.inj first
      have others := ih rest
      rw [nodeArgs, nodeArgs, type]
      cases hv : v.node? with
      | none =>
        rw [hv] at kind
        rw [Option.map_eq_none_iff.1 kind.symm]
      | some m =>
        rw [hv] at kind
        obtain ⟨l, hl, eq⟩ := Option.map_eq_some_iff.1 kind.symm
        rw [hl]
        cases hvs : nodeArgs vs <;> cases hws : nodeArgs ws <;>
          simp_all [Except.map]

theorem Call.seat_of_kinds (k : Kind) {ms ns : List NodeRef}
    (same : ms.map NodeRef.kind = ns.map NodeRef.kind) :
    (seat k ms).map (fun _ => ()) = (seat k ns).map fun _ => () := by
  have first : ms.head?.map NodeRef.kind = ns.head?.map NodeRef.kind := by
    rw [← List.head?_map, ← List.head?_map, same]
  have refused (q : Kind → Bool) : (ms.find? fun m => q m.kind).map NodeRef.kind =
      (ns.find? fun m => q m.kind).map NodeRef.kind := by
    have found (ls : List NodeRef) :
        (ls.find? fun m => q m.kind).map NodeRef.kind = (ls.map NodeRef.kind).find? q := by
      rw [List.find?_map]
      rfl
    rw [found, found, same]
  rw [seat, seat]
  split
  · cases hm : ms.head? with
    | none =>
      rw [hm] at first
      rw [Option.map_eq_none_iff.1 first.symm]
    | some m =>
      rw [hm] at first
      obtain ⟨l, hl, eq⟩ := Option.map_eq_some_iff.1 first.symm
      rw [hl]
      simp only [eq]
      cases k != .repeated || m.kind.canRepeat <;> rfl
  · have find := refused fun kind => k == .layer && !kind.canLayer
    cases hm : ms.find? fun m => k == .layer && !m.kind.canLayer with
    | none =>
      rw [hm] at find
      rw [Option.map_eq_none_iff.1 find.symm]
      rfl
    | some m =>
      rw [hm] at find
      obtain ⟨l, hl, eq⟩ := Option.map_eq_some_iff.1 find.symm
      rw [hl]
      show (Except.error _ : Except BuildError Unit) = .error _
      rw [eq]

/-- What a call for inner nodes answers depends on what its arguments are, not on which. -/
theorem Call.verdict_inner_of_roles (k : Kind) {vs ws : List Value}
    (same : vs.map Value.role = ws.map Value.role) :
    ((inner vs).verdict k).map (fun _ => ()) = ((inner ws).verdict k).map fun _ => () := by
  have null : (vs.head?.map Value.isNull).getD false = (ws.head?.map Value.isNull).getD false := by
    cases vs with
    | nil =>
      cases ws with
      | nil => rfl
      | cons w ws => cases same
    | cons v vs =>
      cases ws with
      | nil => cases same
      | cons w ws => exact Value.isNull_of_role (List.cons.inj same).1
  have kinds := Edit.nodeArgs_of_roles same
  rw [verdict, verdict, null]
  cases k != .unit with
  | false => rfl
  | true =>
    show Except.map _ (if _ then _ else _) = Except.map _ (if _ then _ else _)
    split
    · rfl
    · cases hv : Edit.nodeArgs vs with
      | error reason =>
        cases hw : Edit.nodeArgs ws with
        | error reason' =>
          rw [hv, hw] at kinds
          cases kinds
          rfl
        | ok ns =>
          rw [hv, hw] at kinds
          cases kinds
      | ok ms =>
        cases hw : Edit.nodeArgs ws with
        | error reason =>
          rw [hv, hw] at kinds
          cases kinds
        | ok ns =>
          rw [hv, hw] at kinds
          exact seat_of_kinds k (Except.ok.inj kinds)

/-! ### Methods -/

/-- The slot that a method is about whatever its arguments are. -/
def Method.slot? : Method → Option Slot
  | .data => some .data
  | .inner => some .inner
  | .mark | .markOf _ => some (.entry .mark)
  | .encode => none
  | .channel c => some (.channel c)
  | .bindAxis axis => some (.axis axis)
  | .transform => some (.entry .transform)
  | .projection => some (.entry .projection)
  | .property p => some (.entry (.simple p))

theorem Method.slot?_of_bind? {m : Method} {a : Arguments} {call : Call}
    (fits : m.bind? a = some call) {s : Slot} (about : m.slot? = some s) :
    call.slot? = some s := by
  cases m with
  | channel c =>
    simp only [bind?, Option.bind_eq_bind, Option.bind_eq_some_iff, Option.pure_def,
      Option.some.injEq] at fits
    obtain ⟨_, _, _, _, rfl⟩ := fits
    have named : Edit.channelArg c.name = .ok c := by
      cases c <;> rfl
    rw [Call.slot?, named]
    exact about
  | bindAxis axis =>
    simp only [bind?, Option.bind_eq_bind, Option.bind_eq_some_iff] at fits
    obtain ⟨_, _, fits⟩ := fits
    split at fits <;> cases fits
    exact about
  | property p =>
    simp only [bind?, Option.bind_eq_bind, Option.bind_eq_some_iff] at fits
    obtain ⟨_, _, fits⟩ := fits
    split at fits <;> cases fits
    exact about
  | encode => cases about
  | data | mark | projection =>
    simp only [bind?, Option.bind_eq_bind, Option.bind_eq_some_iff, Option.pure_def,
      Option.some.injEq] at fits
    obtain ⟨_, _, _, _, rfl⟩ := fits
    exact about
  | inner | markOf | transform =>
    obtain ⟨_, _, rfl⟩ := Option.map_eq_some_iff.1 fits
    exact about

/-! ### The builder -/

/-- Calls on a fresh node: a method is about its slot; what a call answers depends on the kind and
its arguments, for inner nodes on what these are, and not on the calls before it; every slot holds
what the last call that landed there would have left alone, and nothing if that call clears it; the
kind stays, and so do the keys and their order but for what the calls write and take away. -/
theorem last_write_wins (k : Kind) (url : String) (calls : List Call) :
    let fresh := Node.fresh k url
    let n := fresh.after calls
    (∀ (m : Method) (a : Arguments) (call : Call) (s : Slot), m.bind? a = some call →
      m.slot? = some s → call.slot? = some s) ∧
    (∀ (call : Call) (url' : String) (others : List Call),
      call.answer n = call.answer ((Node.fresh k url').after others)) ∧
    (∀ vs ws : List Value, vs.map Value.role = ws.map Value.role →
      (Call.inner vs).answer n = (Call.inner ws).answer n) ∧
    (∀ s : Slot, n.read s = match (calls.filter (·.lands fresh s)).getLast? with
      | some call => (call.on fresh).read s
      | none => fresh.read s) ∧
    (∀ (s : Slot) (call : Call), call.lands fresh s = true → call.clears = true →
      (call.on fresh).read s = s.absent) ∧
    n.kind = k ∧
    ∀ area : Area, n.keys? area = (fresh.keys? area).map fun keys =>
      standing (keys.map (·, true) ++ calls.filterMap (·.change? fresh area)) := by
  intro fresh n
  have shaped : fresh.Shaped := Node.fresh_shaped k url
  refine ⟨fun m a call s fits about => Method.slot?_of_bind? fits about,
    fun call url' others => ?_, fun vs ws same => ?_, Node.read_after shaped calls,
    fun s call lands clears => ?_, (Node.after_shaped shaped calls).2, fun area => ?_⟩
  · rw [Node.answer_after shaped, Node.answer_after (Node.fresh_shaped k url')]
    rfl
  · rw [Node.answer_after shaped, Node.answer_after shaped]
    exact Call.verdict_inner_of_roles k same
  · exact Call.read_on_of_clears shaped lands clears
  · refine Node.keys?_after shaped area ?_ calls
    cases k <;> cases area <;> rfl

end ChartTree
