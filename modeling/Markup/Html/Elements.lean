import Markup.Dtd.Declaration

/-!
# The elements of HTML 3.2

The content models are those of HTML 3.2, written as sets of tags. Two of them are relaxed: `A`,
`FONT` and `CENTER` are inclusions of `HTML` and so admitted anywhere but where they are excluded,
and `XMP` and `LISTING` hold raw text.
-/

namespace Markup.Html

/-! ## Groups of elements -/

/-- The headings. -/
def headings : List String := ["H1", "H2", "H3", "H4", "H5", "H6"]

/-- Elements that choose a font style. -/
def fontStyles : List String := ["TT", "I", "B", "U", "STRIKE", "BIG", "SMALL", "SUB", "SUP"]

/-- Elements that say what a phrase is. -/
def phrases : List String := ["EM", "STRONG", "DFN", "CODE", "SAMP", "KBD", "VAR", "CITE"]

/-- Links, pictures and what else stands within a line. -/
def specials : List String := ["A", "IMG", "APPLET", "FONT", "BASEFONT", "BR", "SCRIPT", "MAP"]

/-- The fields of a form. -/
def fields : List String := ["INPUT", "SELECT", "TEXTAREA"]

/-- Elements that stand for themselves between paragraphs. -/
def blocks : List String :=
  ["P", "UL", "OL", "DIR", "MENU", "PRE", "XMP", "LISTING", "DL", "DIV", "CENTER", "BLOCKQUOTE",
    "FORM", "ISINDEX", "HR", "TABLE"]

/-- The children of a document's head. -/
def headContent : List String := ["TITLE", "ISINDEX", "BASE", "SCRIPT", "STYLE", "META", "LINK"]

/-- Text and the elements within a line. -/
def textContent : List String :=
  Element.pcdataToken :: fontStyles ++ phrases ++ specials ++ fields

/-- Text, the elements within a line and blocks. -/
def flowContent : List String := textContent ++ blocks

/-- Whatever a document's body may hold. -/
def bodyContent : List String := flowContent ++ headings ++ ["ADDRESS"]

/-- The attributes of a table cell. -/
def cellAttributes : List String :=
  ["NOWRAP", "ROWSPAN", "COLSPAN", "ALIGN", "VALIGN", "WIDTH", "HEIGHT"]

/-! ## Declarations -/

private def element (content : ContentType) (name : String) : Element := .ofName name content

private def container (name : String) (children : List String) : Element :=
  (element .model name).withModel children

/-- The head, the body and the divisions of a document. -/
def structureElements : List Element := [
  ((container "HTML" ["HEAD", "BODY"]).withAttributes ["VERSION"]).withInclusions
    ["A", "FONT", "CENTER"],
  container "HEAD" headContent,
  element .pcdata "TITLE",
  (element .empty "ISINDEX").withAttributes ["PROMPT"],
  (element .empty "BASE").withAttributes ["HREF"],
  (element .empty "META").withAttributes ["HTTP-EQUIV", "NAME", "CONTENT"],
  (element .empty "LINK").withAttributes ["HREF", "REL", "REV", "TITLE"],
  (element .cdata "SCRIPT").withAttributes ["LANGUAGE", "SRC", "TYPE"],
  (element .cdata "STYLE").withAttributes ["TYPE"],
  (container "BODY" bodyContent).withAttributes
    ["BACKGROUND", "BGCOLOR", "TEXT", "LINK", "VLINK", "ALINK"],
  container "ADDRESS" (textContent ++ ["P"]),
  (container "DIV" bodyContent).withAttributes ["ALIGN"],
  container "CENTER" bodyContent,
  container "BLOCKQUOTE" bodyContent,
  (element .empty "HR").withAttributes ["ALIGN", "NOSHADE", "SIZE", "WIDTH"]]

/-- The headings. -/
def headingElements : List Element :=
  headings.map fun name => (container name textContent).withAttributes ["ALIGN"]

/-- Paragraphs and lists. -/
def blockElements : List Element := [
  (container "P" textContent).withAttributes ["ALIGN"],
  ((container "PRE" textContent).withAttributes ["WIDTH"]).withExclusions
    ["IMG", "BIG", "SMALL", "SUB", "SUP"],
  element .cdata "XMP",
  element .cdata "LISTING",
  (container "DL" ["DT", "DD"]).withAttributes ["COMPACT"],
  container "DT" textContent,
  container "DD" flowContent,
  (container "UL" ["LI"]).withAttributes ["TYPE", "COMPACT"],
  (container "OL" ["LI"]).withAttributes ["TYPE", "START", "COMPACT"],
  (container "DIR" ["LI"]).withAttributes ["COMPACT"],
  (container "MENU" ["LI"]).withAttributes ["COMPACT"],
  (container "LI" flowContent).withAttributes ["TYPE", "VALUE"]]

/-- Forms and their fields. -/
def formElements : List Element := [
  ((container "FORM" bodyContent).withAttributes ["ACTION", "METHOD", "ENCTYPE"]).withExclusions
    ["FORM"],
  (element .empty "INPUT").withAttributes
    ["TYPE", "NAME", "VALUE", "CHECKED", "SIZE", "MAXLENGTH", "SRC", "ALIGN"],
  (container "SELECT" ["OPTION"]).withAttributes ["NAME", "SIZE", "MULTIPLE"],
  (element .pcdata "OPTION").withAttributes ["SELECTED", "VALUE"],
  (element .rcdata "TEXTAREA").withAttributes ["NAME", "ROWS", "COLS"]]

/-- Tables. -/
def tableElements : List Element := [
  (container "TABLE" ["CAPTION", "TR"]).withAttributes
    ["ALIGN", "WIDTH", "BORDER", "CELLSPACING", "CELLPADDING"],
  (container "CAPTION" textContent).withAttributes ["ALIGN"],
  (container "TR" ["TH", "TD"]).withAttributes ["ALIGN", "VALIGN"],
  (container "TH" bodyContent).withAttributes cellAttributes,
  (container "TD" bodyContent).withAttributes cellAttributes]

/-- Elements within a line that hold text and nothing of their own. -/
def styleElements : List Element :=
  (fontStyles ++ phrases).map fun name => container name textContent

/-- Links, pictures, applets, maps and breaks. -/
def specialElements : List Element := [
  ((container "A" textContent).withAttributes
    ["NAME", "HREF", "REL", "REV", "TITLE"]).withExclusions ["A"],
  (element .empty "IMG").withAttributes
    ["SRC", "ALT", "ALIGN", "HEIGHT", "WIDTH", "BORDER", "HSPACE", "VSPACE", "USEMAP", "ISMAP"],
  (container "APPLET" (textContent ++ ["PARAM"])).withAttributes
    ["CODEBASE", "CODE", "ALT", "NAME", "WIDTH", "HEIGHT", "ALIGN", "HSPACE", "VSPACE"],
  (element .empty "PARAM").withAttributes ["NAME", "VALUE"],
  (container "FONT" textContent).withAttributes ["SIZE", "COLOR"],
  (element .empty "BASEFONT").withAttributes ["SIZE"],
  (element .empty "BR").withAttributes ["CLEAR"],
  (container "MAP" ["AREA"]).withAttributes ["NAME"],
  (element .empty "AREA").withAttributes ["SHAPE", "COORDS", "HREF", "NOHREF", "ALT"]]

/-- All elements of HTML 3.2. -/
def elements : List Element :=
  structureElements ++ headingElements ++ blockElements ++ formElements ++ tableElements ++
    styleElements ++ specialElements

end Markup.Html
