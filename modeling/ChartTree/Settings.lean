import ChartTree.Text.Blank
import ChartTree.Value.Display

/-!
# Settings

Where the schema URL of new nodes comes from: the setting of the site if it counts as true, else
the environment if it is not blank, else the default. A setting of the site is taken as its plain
text, one of the environment without the blanks around it.
-/

namespace ChartTree

/-- The schema URL without any setting. -/
def defaultSchemaUrl : String :=
  "https://vega.github.io/schema/vega-lite/v3.json"

/-- The name and the label under which the library is known to a site. -/
def applicationNames : List String :=
  ["chartspec", "Chart specifications"]

/-- What is configured. -/
structure Settings where
  /-- The setting in the environment, if there is one. -/
  environment : Option String
  /-- The setting of the site, if there is a site that has one. -/
  site : Option Value

namespace Settings

def unset : Settings :=
  ⟨none, none⟩

/-- The schema URL that the environment gives. -/
def environmentUrl (s : Settings) : String :=
  let url := Text.trim (s.environment.getD "")
  if url = "" then defaultSchemaUrl else url

/-- The schema URL of new nodes. -/
def schemaUrl (s : Settings) : String :=
  match s.site with
  | some v => if v.truthy then v.text else s.environmentUrl
  | none => s.environmentUrl

end Settings

end ChartTree
