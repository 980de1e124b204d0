import PdfContent.Failure
import PdfContent.Font
import PdfContent.GraphicsState

/-!
Named resources of a content stream. A lookup may find nothing or fail; it may also remember what
it loaded, so it takes a memory and returns the memory after it.
-/

namespace PdfContent

abbrev Found (α : Type) := Except Failure (Option α)

abbrev Lookup (σ α : Type) := String → σ → Found α × σ

structure Resources (σ : Type) where
  colorSpace : Lookup σ ColorSpace
  font : Lookup σ Font
  pattern : Lookup σ Pattern
  shading : Lookup σ Shading
  xobject : Lookup σ XObject
  extGState : Lookup σ ExtGState
  /-- The space that replaces a device family, if one is declared. -/
  defaultColorSpace : DeviceFamily → σ → Found ColorSpace × σ :=
    fun family => colorSpace family.defaultName

namespace Resources

def constant {σ α : Type} (find : String → Found α) : Lookup σ α :=
  fun name memory => (find name, memory)

def empty {σ : Type} : Resources σ where
  colorSpace := constant fun _ => .ok none
  font := constant fun _ => .ok none
  pattern := constant fun _ => .ok none
  shading := constant fun _ => .ok none
  xobject := constant fun _ => .ok none
  extGState := constant fun _ => .ok none

end Resources

/-- Resources listed by name. Every lookup of a name that is listed as broken fails. -/
structure ResourceTable where
  colorSpaces : List (String × ColorSpace) := []
  fonts : List (String × Font) := []
  patterns : List (String × Pattern) := []
  shadings : List (String × Shading) := []
  xobjects : List (String × XObject) := []
  extGStates : List (String × ExtGState) := []
  broken : List String := []

namespace ResourceTable

def find {α : Type} (table : ResourceTable) (entries : List (String × α)) (name : String) :
    Found α :=
  if table.broken.contains name then .error (.resource (.unresolvable name))
  else .ok (entries.lookup name)

def resources {σ : Type} (table : ResourceTable) : Resources σ where
  colorSpace := Resources.constant (table.find table.colorSpaces)
  font := Resources.constant (table.find table.fonts)
  pattern := Resources.constant (table.find table.patterns)
  shading := Resources.constant (table.find table.shadings)
  xobject := Resources.constant (table.find table.xobjects)
  extGState := Resources.constant (table.find table.extGStates)

end ResourceTable

end PdfContent
