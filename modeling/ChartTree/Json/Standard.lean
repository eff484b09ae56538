import ChartTree.Json.Framework

/-!
# The standard framework

The framework that pages are rendered with. Seconds are cut to milliseconds, universal time is
written as `Z`, and the ISO 8601 text of a duration writes the absolute value in days, hours,
minutes and seconds after a sign.
-/

namespace ChartTree

/-- The text of a time of day that is not aware, cut to milliseconds. -/
def Time.jsonText (t : Time) : String :=
  String.ofList (t.clockChars ++ t.fractionChars 3)

/-- The text of a time on a date, cut to milliseconds. -/
def DateTime.jsonText (d : DateTime) : String :=
  let zone := if d.time.offset = some 0 then ['Z'] else d.time.offsetChars
  String.ofList (d.date.isoChars ++
    'T' :: (d.time.clockChars ++ d.time.fractionChars 3 ++ zone))

namespace Duration

def total (d : Duration) : Int :=
  (d.days * 86400 + d.seconds) * 1000000 + d.microseconds

/-- The duration of a number of microseconds. -/
def ofTotal (n : Nat) : Duration :=
  ⟨(n / 86400000000 : Nat), n / 1000000 % 86400, n % 1000000⟩

/-- The length without its sign. -/
def magnitude (d : Duration) : Duration :=
  ofTotal d.total.natAbs

def iso (d : Duration) : String :=
  let m := d.magnitude
  String.ofList ((if d.days < 0 then ['-', 'P'] else ['P']) ++ Text.signed m.days ++
    'D' :: 'T' :: Text.decimalFilled 2 (m.seconds / 3600) ++
    'H' :: Text.decimalFilled 2 (m.seconds / 60 % 60) ++
    'M' :: Text.decimalFilled 2 (m.seconds % 60) ++ m.fractionChars ++ ['S'])

example : iso ⟨-1, 1, 500⟩ = "-P0DT23H59M58.999500S" := by
  decide +kernel

end Duration

namespace Framework

def standard : Framework where
  encoded
    | .date d => .text d.iso
    | .datetime d => .text d.jsonText
    | .time t =>
      if t.isAware then .refusal "JSON can't represent timezone-aware times."
      else .text t.jsonText
    | .duration d => .text d.iso
    | .decimal d => .text d.text
    | .uuid u => .text u.text
    | _ => .left
  escape s := String.ofList (s.toList.flatMap Json.attributeChar)
  jsonScript text id := String.ofList ("<script".toList ++
    (id.idAttribute (fun s => String.ofList (s.toList.flatMap Json.attributeChar)) ++
      (" type=\"application/json\">".toList ++
        (text.toList.flatMap Json.scriptChar ++ "</script>".toList))))

theorem standard_documented : standard.Documented where
  date _ := ⟨_, rfl⟩
  datetime _ := ⟨_, rfl⟩
  naiveTime _ naive := ⟨_, if_neg (by simp [naive])⟩
  awareTime _ aware := if_pos aware
  duration _ := ⟨_, rfl⟩
  decimal _ := ⟨_, rfl⟩
  uuid _ := ⟨_, rfl⟩
  bytes _ := rfl
  node _ := rfl
  reference _ _ _ := rfl
  escape _ := String.toList_ofList
  jsonScript _ _ := String.toList_ofList

end Framework

end ChartTree
