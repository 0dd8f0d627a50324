import Cartouche.Style.Instruction
import Cartouche.Style.Rule

/-!
# Labels of placemarks

A `Labeller` gives a placemark its name and its description. `Labeller.templates` takes the name
from the first text symbolizer of the rules that draw the feature, and describes the feature by a
table of its attributes.
-/

namespace Cartouche

/-- Where the names and descriptions of placemarks come from. -/
structure Labeller where
  /-- The name of a feature that is drawn by rules. -/
  name : Feature → List Rule → Except LabelError (Option String)
  description : Feature → Except LabelError (Option String)

namespace Labeller

/-- The name by the first label template among the rules. -/
def templateName (feature : Feature) (rules : List Rule) : Except LabelError (Option String) :=
  match (rules.flatMap Rule.symbolizers).findSome? Symbolizer.label? with
  | some template => (renderLabel template feature).map some
  | none => .ok none

/-- A row of the table of attributes. -/
def tableRow (name : String) (value : AttributeValue) : String :=
  "<tr><td>" ++ name ++ "</td><td>" ++ value.display ++ "</td></tr>"

/-- The attributes as a table, if there are any. -/
def attributeTable (feature : Feature) : Option String :=
  if feature.attributes.isEmpty then
    none
  else
    let rows := feature.attributes.entries.map fun (name, value) => tableRow name value
    some ("<table>" ++ String.join rows ++ "</table>")

/-- Names by templates, descriptions by tables. -/
def templates : Labeller where
  name := templateName
  description feature := .ok (attributeTable feature)

/-- Names by templates, and no descriptions. -/
def namesOnly : Labeller where
  name := templateName
  description _ := .ok none

/-- The same name and description for every feature. -/
def fixed (name description : Except LabelError (Option String)) : Labeller where
  name _ _ := name
  description _ := description

end Labeller

end Cartouche
