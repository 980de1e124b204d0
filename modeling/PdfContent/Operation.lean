import PdfContent.Transparency

/-!
The operators of content streams. Every operator name stands for one operation; a name outside the
table is unknown.
-/

namespace PdfContent

inductive ShownOperand
  | first
  | last
  | array
  deriving DecidableEq, Inhabited

inductive Operation
  | generalState
  | dashPattern
  | extGState
  | save
  | restore
  | transform
  | markedContent
  | endMarkedContent
  | clip
  | deviceColor (side : Side) (family : DeviceFamily)
  | colorSpace (side : Side)
  | color (side : Side)
  | colorOrPattern (side : Side)
  | textObject
  | textPosition
  | textState
  | renderingMode
  | textFont
  | textShow (shown : ShownOperand)
  | type3Glyph
  | beginImage
  | imageData
  | endImage
  | beginCompatibility
  | endCompatibility
  | pathConstruction
  | pathPaint (policy : Option TransparencyPolicy)
  | shading
  | xobject
  | unknown
  deriving DecidableEq, Inhabited

namespace Operation

def table : List (String × Operation) :=
  [("w", generalState), ("J", generalState), ("j", generalState), ("M", generalState),
   ("ri", generalState), ("i", generalState), ("d", dashPattern), ("gs", extGState),
   ("q", save), ("Q", restore), ("cm", transform),
   ("BMC", markedContent), ("BDC", markedContent), ("MP", markedContent),
   ("DP", markedContent), ("EMC", endMarkedContent), ("W", clip), ("W*", clip),
   ("G", deviceColor .stroke .gray), ("g", deviceColor .fill .gray),
   ("RG", deviceColor .stroke .rgb), ("rg", deviceColor .fill .rgb),
   ("K", deviceColor .stroke .cmyk), ("k", deviceColor .fill .cmyk),
   ("CS", colorSpace .stroke), ("cs", colorSpace .fill),
   ("SC", color .stroke), ("sc", color .fill),
   ("SCN", colorOrPattern .stroke), ("scn", colorOrPattern .fill),
   ("BT", textObject), ("ET", textObject), ("Td", textPosition), ("TD", textPosition),
   ("Tm", textPosition), ("T*", textPosition), ("Tc", textState), ("Tw", textState),
   ("Tz", textState), ("TL", textState), ("Ts", textState), ("Tr", renderingMode),
   ("Tf", textFont), ("Tj", textShow .first), ("TJ", textShow .array),
   ("'", textShow .first), ("\"", textShow .last), ("d0", type3Glyph), ("d1", type3Glyph),
   ("BI", beginImage), ("ID", imageData), ("EI", endImage),
   ("BX", beginCompatibility), ("EX", endCompatibility),
   ("m", pathConstruction), ("l", pathConstruction), ("c", pathConstruction),
   ("v", pathConstruction), ("y", pathConstruction), ("h", pathConstruction),
   ("re", pathConstruction), ("S", pathPaint (some .stroke)), ("s", pathPaint (some .stroke)),
   ("f", pathPaint (some .fill)), ("F", pathPaint (some .fill)),
   ("f*", pathPaint (some .fill)), ("B", pathPaint (some .fillStroke)),
   ("B*", pathPaint (some .fillStroke)), ("b", pathPaint (some .fillStroke)),
   ("b*", pathPaint (some .fillStroke)), ("n", pathPaint none),
   ("sh", shading), ("Do", xobject)]

def ofName (name : String) : Operation := (table.lookup name).getD unknown

/-- How the operation is judged; `none` when it paints nothing. Text goes by its rendering mode. -/
def policy? (mode : RenderingMode) : Operation → Option TransparencyPolicy
  | pathPaint policy => policy
  | shading => some .fill
  | endImage => some .fill
  | xobject => some .fillXObject
  | textShow _ => TransparencyPolicy.ofRenderingMode? mode
  | _ => none

end Operation

namespace TransparencyPolicy

def ofOperator? (name : String) (mode : RenderingMode) : Option TransparencyPolicy :=
  (Operation.ofName name).policy? mode

end TransparencyPolicy

end PdfContent
