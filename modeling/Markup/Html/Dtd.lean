import Markup.Dtd.Basic
import Markup.Html.Elements
import Markup.Html.Entities

/-!
# The document type HTML 3.2
-/

namespace Markup.Html

/-- The built-in document type. -/
def dtd : Dtd where
  root := .declare "HTML"
  elements := .ofList elements
  entities := .ofList entities

end Markup.Html
