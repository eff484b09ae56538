import Mathlib.Data.List.Basic
import ChartTree.Chart.Render
import ChartTree.Json.Standard
import ChartTree.Proofs.Json.NormalForm
import ChartTree.Session

/-!
# Charts in a page

The script element that holds a document: which markup it is made of, what a page reads back from
its identifier and what a JSON reader reads back from its body. A page reads an attribute by
replacing its character references, of which there are far more than the five that are written;
what is read back depends on those five only.
-/

namespace ChartTree

/-! ### Character references -/

/-- The tables behind character references: the text of a name, with the semicolon that it may end
in, and the text of a code point. -/
structure References where
  named : List Char → Option (List Char)
  coded : Nat → List Char

namespace References

/-- A table with the names that go back to the first version of the format, in which a number of
the graphic range of ASCII stands for its character. -/
structure Standard (t : References) : Prop where
  ampersand : t.named "amp;".toList = some ['&']
  less : t.named "lt;".toList = some ['<']
  greater : t.named "gt;".toList = some ['>']
  quotation : t.named "quot;".toList = some ['\x22']
  graphic : ∀ n, 0x20 ≤ n → n < 0x7f → t.coded n = [Char.ofNat n]

/-- Whether a character can be part of a name. -/
def isNameChar (c : Char) : Bool :=
  c ∉ ['\t', '\n', '\x0c', ' ', '<', '&', '#', ';']

/-- The length of a reference with the semicolon that may follow it. -/
def closed (length : Nat) (rest : List Char) : Nat :=
  if rest.head? = some ';' then length + 1 else length

/-- The text of a reference by number and its length, from behind the number sign. -/
def numeric? (t : References) (cs : List Char) : Option (List Char × Nat) :=
  match cs with
  | [] => none
  | c :: rest =>
    if c = 'x' || c = 'X' then
      let ds := rest.takeWhile fun d => (Text.hexDigit? d).isSome
      (Text.readHex? ds).map fun n =>
        (t.coded n, 2 + closed ds.length (rest.drop ds.length))
    else
      let ds := cs.takeWhile Char.isDigit
      (Text.readDecimal? ds).map fun n => (t.coded n, 1 + closed ds.length (cs.drop ds.length))

/-- The text of a name: that of its longest prefix in the table, with what is left of the name. A
name without any stands for itself. -/
def nameText (t : References) (name : List Char) : List Char :=
  let lengths := name.length :: (List.range name.length).reverse.filter (2 ≤ ·)
  let found := lengths.findSome? fun n => (t.named (name.take n)).map (· ++ name.drop n)
  found.getD ('&' :: name)

/-- The text of a reference by name and its length. -/
def named? (t : References) (cs : List Char) : Option (List Char × Nat) :=
  let name := (cs.takeWhile isNameChar).take 32
  if name.isEmpty then none
  else
    let length := closed name.length (cs.drop name.length)
    some (t.nameText (cs.take length), length)

/-- The text of the reference behind an ampersand and its length, if there is one. -/
def reference? (t : References) : List Char → Option (List Char × Nat)
  | '#' :: rest => t.numeric? rest
  | cs => t.named? cs

/-- A text with its references replaced, after so many characters. -/
def unescapeFrom (t : References) : Nat → List Char → List Char
  | _, [] => []
  | skip + 1, _ :: cs => t.unescapeFrom skip cs
  | 0, '&' :: cs =>
    match t.reference? cs with
    | some (text, length) => text ++ t.unescapeFrom length cs
    | none => '&' :: t.unescapeFrom 0 cs
  | 0, c :: cs => c :: t.unescapeFrom 0 cs

/-- A text as a page reads it. -/
def unescape (t : References) (cs : List Char) : List Char :=
  t.unescapeFrom 0 cs

variable (t : References)

theorem unescapeFrom_length (cs rest : List Char) :
    t.unescapeFrom cs.length (cs ++ rest) = t.unescapeFrom 0 rest := by
  induction cs with
  | nil => rfl
  | cons c cs ih => exact ih

theorem unescapeFrom_other {c : Char} (other : c ≠ '&') (rest : List Char) :
    t.unescapeFrom 0 (c :: rest) = c :: t.unescapeFrom 0 rest := by
  rw [unescapeFrom.eq_4]
  exact other

/-- A name in the table that a semicolon ends is replaced by its text. -/
theorem unescapeFrom_named {name text : List Char} (letters : name.all isNameChar = true)
    (nonempty : name ≠ []) (short : name.length ≤ 32)
    (known : t.named (name ++ [';']) = some text) (rest : List Char) :
    t.unescapeFrom 0 ('&' :: (name ++ ';' :: rest)) = text ++ t.unescapeFrom 0 rest := by
  have run : ((name ++ ';' :: rest).takeWhile isNameChar).take 32 = name := by
    rw [List.takeWhile_append_of_pos (List.all_eq_true.1 letters)]
    simp [isNameChar, List.take_of_length_le short]
  have named : t.named? (name ++ ';' :: rest) = some (text, name.length + 1) := by
    have whole : (name ++ ';' :: rest).take (name.length + 1) = name ++ [';'] := by
      rw [← List.singleton_append, ← List.append_assoc]
      exact List.take_left' (by simp)
    have nameText : t.nameText (name ++ [';']) = text := by
      rw [References.nameText, List.findSome?_cons, List.take_length, known, List.drop_length]
      exact List.append_nil text
    simp only [named?, run, List.isEmpty_iff, nonempty, List.drop_left, closed, List.head?_cons,
      if_true, if_false, whole, nameText]
  have letter : ∀ cs, name ++ ';' :: rest ≠ '#' :: cs := by
    obtain ⟨c, cs, rfl⟩ := List.exists_cons_of_ne_nil nonempty
    intro cs' eq
    have first : isNameChar c = true := List.all_eq_true.1 letters c List.mem_cons_self
    rw [(List.cons.inj eq).1] at first
    cases first
  have after := t.unescapeFrom_length (name ++ [';']) rest
  rw [List.length_append, List.append_assoc] at after
  rw [unescapeFrom, reference?, named]
  · exact congrArg (text ++ ·) after
  · exact letter

/-- The written form of a character is read back as that character. -/
theorem Standard.attributeChar {t : References} (standard : t.Standard) (c : Char)
    (rest : List Char) :
    t.unescapeFrom 0 (Json.attributeChar c ++ rest) = c :: t.unescapeFrom 0 rest := by
  have named (name : List Char) {d : Char} (known : t.named (name ++ [';']) = some [d])
      (letters : name.all isNameChar = true) (nonempty : name ≠ []) (short : name.length ≤ 32) :=
    t.unescapeFrom_named letters nonempty short known rest
  rw [Json.attributeChar]
  split
  · rename_i eq
    exact eq ▸ named ['a', 'm', 'p'] standard.ampersand rfl (by decide) (by decide)
  split
  · rename_i eq
    exact eq ▸ named ['l', 't'] standard.less rfl (by decide) (by decide)
  split
  · rename_i eq
    exact eq ▸ named ['g', 't'] standard.greater rfl (by decide) (by decide)
  split
  · rename_i eq
    exact eq ▸ named ['q', 'u', 'o', 't'] standard.quotation rfl (by decide) (by decide)
  split
  · rename_i eq
    have code : t.coded 0x27 = ['\x27'] := standard.graphic 0x27 (by decide) (by decide)
    have numeric : t.reference? ('#' :: 'x' :: '2' :: '7' :: ';' :: rest) =
        some (t.coded 0x27, 5) := rfl
    subst eq
    show t.unescapeFrom 0 ('&' :: '#' :: 'x' :: '2' :: '7' :: ';' :: rest) = _
    rw [unescapeFrom, numeric, code]
    rfl
  · rename_i other _ _ _ _
    exact t.unescapeFrom_other other rest

/-- The written form of a text is read back as that text. -/
theorem Standard.unescape_flatMap {t : References} (standard : t.Standard) (cs : List Char) :
    t.unescape (cs.flatMap Json.attributeChar) = cs := by
  rw [unescape]
  induction cs with
  | nil => rfl
  | cons c cs ih => rw [List.flatMap_cons, standard.attributeChar, ih]

end References

/-! ### The element -/

namespace Json

/-- What the attribute of an identifier is: a value is escaped, and read back as its text; a text
that is marked as safe markup stands as it is. -/
def NamedBy (t : References) (a : List Char) : ElementId → Prop
  | .value v => (∀ c ∈ a, c ∉ ['\x22', '\x27', '<', '>']) ∧ t.unescape a = v.text.toList
  | .markup s => a = s.toList

/-- A script element that holds a JSON value under an identifier. -/
structure Holds (t : References) (html : String) (id : ElementId) (j : Json) : Prop where
  /-- The element is one opening tag, a body and one closing tag. -/
  markup : ∃ identifier body, html.toList = "<script".toList ++ (identifier ++
    (" type=\"application/json\">".toList ++ (body ++ "</script>".toList))) ∧
      (id.truthy = false → identifier = []) ∧
      (id.truthy = true → ∃ a, identifier = " id=\"".toList ++ (a ++ ['\x22']) ∧
        NamedBy t a id) ∧
      (∀ c ∈ body, c ∉ ['<', '>', '&']) ∧ parseChars body = some j
  /-- Nothing but the end of the element starts a closing tag, unless a text that is marked as safe
  markup does. -/
  closing : (∀ s, id = .markup s → '<' ∉ s.toList) →
    ∀ before after, html.toList = before ++ '<' :: '/' :: after → after = "script>".toList

theorem scriptChar_plain (cs : List Char) : ∀ c ∈ cs.flatMap scriptChar, c ∉ ['<', '>', '&'] := by
  have char : ∀ d, ∀ c ∈ scriptChar d, c ∉ ['<', '>', '&'] := by
    intro d
    rw [scriptChar]
    split
    · simp
    split
    · simp
    split
    · simp
    · rename_i less greater and
      intro c hc
      rw [List.mem_singleton.1 hc]
      simp [less, greater, and]
  intro c hc
  obtain ⟨d, _, mem⟩ := List.mem_flatMap.1 hc
  exact char d c mem

theorem attributeChar_plain (cs : List Char) :
    ∀ c ∈ cs.flatMap attributeChar, c ∉ ['\x22', '\x27', '<', '>'] := by
  have char : ∀ d, ∀ c ∈ attributeChar d, c ∉ ['\x22', '\x27', '<', '>'] := by
    intro d
    rw [attributeChar]
    split
    · simp
    split
    · simp
    split
    · simp
    split
    · simp
    split
    · simp
    · rename_i less greater quotation apostrophe
      intro c hc
      rw [List.mem_singleton.1 hc]
      simp [less, greater, quotation, apostrophe]
  intro c hc
  obtain ⟨d, _, mem⟩ := List.mem_flatMap.1 hc
  exact char d c mem

/-- An element whose identifier starts no markup ends with the only closing tag in it. -/
theorem closing_of_plain {identifier body before after : List Char} (plain : '<' ∉ identifier)
    (plain' : '<' ∉ body)
    (eq : "<script".toList ++ (identifier ++ (" type=\"application/json\">".toList ++
      (body ++ "</script>".toList))) = before ++ '<' :: '/' :: after) :
    after = "script>".toList := by
  have parts : "<script".toList ++ (identifier ++ (" type=\"application/json\">".toList ++
      (body ++ "</script>".toList))) = '<' :: (('s' :: ("cript".toList ++ (identifier ++
        (" type=\"application/json\">".toList ++ body)))) ++ '<' :: "/script>".toList) := by
    simp
  have free : '<' ∉ 's' :: ("cript".toList ++ (identifier ++
      (" type=\"application/json\">".toList ++ body))) := by
    simp [plain, plain']
  have last : '<' ∉ "/script>".toList := by decide +kernel
  rw [parts] at eq
  cases before with
  | nil => exact absurd (List.cons.inj (List.cons.inj eq).2).1 (by decide)
  | cons c before =>
    -- Apart from the first character, the only one of its kind is that of the closing tag.
    obtain ⟨_, _, same⟩ := (List.append_cons_inj_of_notMem free last).1 (List.cons.inj eq).2
    simpa using same.symm

end Json

namespace Framework

open Json

variable {fw : Framework} {t : References}

theorem Documented.namedBy (documented : fw.Documented) (standard : t.Standard) (id : ElementId) :
    NamedBy t (id.inMarkup fw.escape).toList id := by
  cases id with
  | value v =>
    rw [ElementId.inMarkup, documented.escape]
    exact ⟨attributeChar_plain _, standard.unescape_flatMap _⟩
  | markup s => exact Eq.refl s.toList

theorem Documented.idAttribute_plain (documented : fw.Documented) {id : ElementId}
    (plain : ∀ s, id = .markup s → '<' ∉ s.toList) : '<' ∉ id.idAttribute fw.escape := by
  have text : '<' ∉ (id.inMarkup fw.escape).toList := by
    cases id with
    | value v =>
      rw [ElementId.inMarkup, documented.escape]
      exact fun mem => attributeChar_plain _ _ mem (by decide)
    | markup s => exact plain s rfl
  rw [ElementId.idAttribute]
  split
  · simp [text]
  · exact List.not_mem_nil

/-- The element of a value holds it, under an identifier that counts as true. -/
theorem Documented.holds (documented : fw.Documented) (standard : t.Standard) (id : ElementId)
    (j : Json) : Holds t (fw.jsonScript (render .inline j) id) id j where
  markup := by
    refine ⟨id.idAttribute fw.escape, _, documented.jsonScript _ id, fun falsy => ?_,
      fun truthy => ?_, scriptChar_plain _, ?_⟩
    · rw [ElementId.idAttribute, falsy]
      rfl
    · rw [ElementId.idAttribute, truthy]
      exact ⟨_, rfl, documented.namedBy standard id⟩
    · rw [render, String.toList_ofList]
      exact parseChars_script .inline j
  closing plain before after eq := by
    rw [documented.jsonScript] at eq
    exact closing_of_plain (documented.idAttribute_plain plain)
      (fun mem => scriptChar_plain _ _ mem (by decide)) eq

end Framework

/-- An element embeds a value: it holds the JSON form that the JSON text of the value is read as in
every layout, and that is one of the standard format if the numbers of the value are finite. -/
def Value.EmbeddedIn (v : Value) (fw : Framework) (t : References) (id : ElementId)
    (html : String) : Prop :=
  ∃ j, Json.Holds t html id j ∧ (v.hasFiniteNumbers = true → j.isStandard = true) ∧
    ∀ l, ∃ text, v.toJson fw l = .ok text ∧ Json.parse text = some j

/-- Wherever a value can be written as a script element, the element embeds it; and the element of a
chart, or the refusal of one, is that of the document it compiles to. -/
theorem script_holds_document {fw : Framework} (documented : fw.Documented) {t : References}
    (standard : t.Standard) :
    (∀ (v : Value) (id : ElementId) (html : String), v.toScript fw id = .ok html →
      v.EmbeddedIn fw t id html) ∧
    (∀ (c : Chart) (id : ElementId) (document : Document), c.compile = .ok document →
      c.toScript fw id = (document.toValue.toScript fw id).mapError .encode) ∧
    (∀ (c : Chart) (id : ElementId) (html : String), c.toScript fw id = .ok html →
      ∃ document, c.compile = .ok document ∧ document.toValue.EmbeddedIn fw t id html) ∧
    ∀ (c : Chart) (id : ElementId) (reason : CompileError), c.compile = .error reason →
      c.toScript fw id = .error (.compile reason) := by
  have value (v : Value) (id : ElementId) (html : String) (ok : v.toScript fw id = .ok html) :
      v.EmbeddedIn fw t id html := by
    obtain ⟨j, encoded, rfl⟩ := map_eq_ok_iff.1 ok
    refine ⟨j, documented.holds standard id j, fun finite => ?_, fun l => ⟨Json.render l j, ?_, ?_⟩⟩
    · exact ((Value.encode_eq_ok_iff documented v j finite).1 encoded).isStandard
    · rw [Value.toJson, encoded]
      rfl
    · exact Json.parse_render l j
  have compiled (c : Chart) (id : ElementId) (document : Document)
      (ok : c.compile = .ok document) :
      c.toScript fw id = (document.toValue.toScript fw id).mapError .encode := by
    rw [Chart.toScript, Chart.compiled, ok]
    rfl
  have refused (c : Chart) (id : ElementId) (reason : CompileError)
      (error : c.compile = .error reason) : c.toScript fw id = .error (.compile reason) := by
    rw [Chart.toScript, Chart.compiled, error]
    rfl
  refine ⟨value, compiled, ?_, refused⟩
  intro c id html ok
  obtain ⟨v, made, written⟩ := bind_eq_ok_iff.1 ok
  obtain ⟨document, compile, rfl⟩ := c.compiled_eq_ok made
  exact ⟨document, compile, value _ id html (mapError_eq_ok_iff.1 written)⟩

/-- A table with the written names only, in which every number stands for its character. -/
def writtenReferences : References where
  named name :=
    [("amp;", '&'), ("lt;", '<'), ("gt;", '>'), ("quot;", '\x22')].findSome? fun (known, c) =>
      if known.toList = name then some [c] else none
  coded n := [Char.ofNat n]

theorem writtenReferences_standard : writtenReferences.Standard where
  ampersand := rfl
  less := rfl
  greater := rfl
  quotation := rfl
  graphic _ _ _ := rfl

/-- A unit with the end of an element in its title. -/
def taggedSteps : List Step :=
  [.make (.ofKind "unit"), .call 0 (.property .title "</script>")]

theorem script_holds_document_of_titled :
    let id : ElementId := .value "a<\x22b\x22>&'c'"
    ∃ c html document, ((Session.start .unset).run taggedSteps).store.chart? 0 = some c ∧
      id.truthy = true ∧ c.toScript .standard id = .ok html ∧ c.compile = .ok document ∧
        document.toValue.EmbeddedIn .standard writtenReferences id html := by
  intro id
  obtain ⟨c, html, found, written⟩ : ∃ c html,
      ((Session.start .unset).run taggedSteps).store.chart? 0 = some c ∧
        c.toScript .standard id = .ok html := ⟨_, _, rfl, rfl⟩
  obtain ⟨_, _, chart, _⟩ :=
    script_holds_document Framework.standard_documented writtenReferences_standard
  obtain ⟨document, compiled, embedded⟩ := chart c id html written
  exact ⟨c, html, document, found, rfl, written, compiled, embedded⟩

/-- An identifier that is marked as safe markup is not escaped, and a number that is no number has
no form in the standard format. -/
theorem script_not_always_plain :
    (∃ html a, (Value.dict []).toScript .standard (.markup "it's") = .ok html ∧
      html.toList = "<script id=\"".toList ++ (a ++
        "\" type=\"application/json\">\x7b\x7d</script>".toList) ∧ '\x27' ∈ a) ∧
    ∃ html body j, Value.toScript .standard ⟨none, .float .nan⟩ (.value ⟨none, .null⟩) = .ok html ∧
      html = "<script type=\"application/json\">" ++ body ++ "</script>" ∧
        Json.parse body = some j ∧ j.isStandard = false := by
  exact ⟨⟨_, "it's".toList, rfl, by decide +kernel, by decide⟩,
    _, "NaN", .nan, rfl, by decide +kernel, rfl, rfl⟩

end ChartTree
