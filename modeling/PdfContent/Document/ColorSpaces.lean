import PdfContent.Cache
import PdfContent.Document.Basic
import PdfContent.Pattern

/-!
Color spaces, shadings and patterns of a document. Color space arrays may nest, and may refer to
themselves, so nesting is bounded. Every separation space met on the way is remembered by its
colorant, the first one for each.
-/

namespace PdfContent.Document

abbrev SpaceLoading (α : Type) := ExceptT ResourceFault (StateM (Cache String ColorSpace)) α

/-- How many color spaces may stand inside one another, the outermost included. -/
def nestingLimit : Nat := 9

def remember (colorant : String) (space : ColorSpace) : SpaceLoading Unit :=
  modify fun separations => (separations.getOrInsert colorant space).2

def orFail {α : Type} (value : Option α) (fault : ResourceFault) : SpaceLoading α :=
  match value with
  | some v => return v
  | none => throw fault

/-- A failure counts as absence; what was remembered before it stays. -/
def ifUsable {α : Type} (load : SpaceLoading α) : SpaceLoading (Option α) := fun separations =>
  let result := load.run separations
  (.ok result.1.toOption, result.2)

def highestIndex (o : PdfObject) : Nat :=
  match o.number? with
  | some x => min 255 x.toUInt32.toNat
  | none => 0

def item (doc : Document) (items : List PdfObject) (index : Nat) (family : String) :
    SpaceLoading PdfObject :=
  orFail (items[index]?.map doc.resolve) (.colorSpaceTooShort family)

/-- The component count of an ICC based space: as it says, as its profile says, or as its
alternate has. -/
def iccComponents? (doc : Document) (entries : Dictionary) (profile : Option IccProfile)
    (alternate : Option ColorSpace) : Option Nat :=
  ((doc.size? entries "N").or (profile.bind IccProfile.components)).or
    (alternate.map ColorSpace.components)

/-- The color space an object describes, with at most `levels` spaces inside one another. -/
def readColorSpace (doc : Document) (levels : Nat) (o : PdfObject) : SpaceLoading ColorSpace :=
  match levels with
  | 0 => throw .colorSpaceTooDeep
  | levels + 1 =>
    match doc.resolve o with
    | .name n =>
      orFail (ColorSpace.ofFamilyName? n.toText) (.colorSpaceUnknown n.toText)
    | .array items => do
      let family ← orFail ((items.head?.map doc.resolve).bind PdfObject.name?)
        .colorSpaceWithoutFamily
      if family ∈ ["DeviceGray", "DeviceRGB", "DeviceCMYK"] then
        return (ColorSpace.ofFamilyName? family).getD .deviceGray
      else if family == "CalGray" then return .calGray
      else if family == "CalRGB" then return .calRgb
      else if family == "Lab" then return .lab
      else if family == "ICCBased" then
        match ← doc.item items 1 family with
        | .stream entries data =>
          let alternate ←
            match doc.get? entries "Alternate" with
            | some o => ifUsable (readColorSpace doc levels o)
            | none => pure none
          let profile := (doc.streamData entries data).toOption.bind IccProfile.ofBytes?
          let components ←
            orFail (doc.iccComponents? entries profile alternate) .componentsMissing
          return .iccBased components alternate profile
        | _ => throw .profileMissing
      else if family == "Indexed" || family == "I" then
        let base ← readColorSpace doc levels (← doc.item items 1 family)
        return .indexed base (highestIndex (← doc.item items 2 family))
      else if family == "Separation" then
        let colorant ← orFail (← doc.item items 1 family).name? .colorantMissing
        let alternate ← readColorSpace doc levels (← doc.item items 2 family)
        let space := ColorSpace.separation colorant alternate
        remember colorant space
        return space
      else if family == "DeviceN" then
        let colorants ← orFail (← doc.item items 1 family).array? .colorantsMissing
        let alternate ← readColorSpace doc levels (← doc.item items 2 family)
        return .deviceN (doc.names colorants) alternate
      else if family == "Pattern" then
        match items[1]? with
        | some base => return .pattern (some (← readColorSpace doc levels base))
        | none => return .pattern none
      else throw (.colorSpaceUnsupported family)
    | _ => throw .colorSpaceNotObject

def loadColorSpace (doc : Document) (o : PdfObject) : SpaceLoading ColorSpace :=
  doc.readColorSpace nestingLimit o

def loadShading (doc : Document) (o : PdfObject) : SpaceLoading Shading := do
  let entries ← orFail o.dictionary? .shadingNotDictionary
  let kind ← orFail (doc.integer? entries "ShadingType") .shadingWithoutType
  let space ← orFail (doc.get? entries "ColorSpace") .shadingWithoutColorSpace
  return { kind, colorSpace := ← doc.loadColorSpace space }

def loadPattern (doc : Document) (name : String) (o : PdfObject) : SpaceLoading Pattern := do
  let entries ← orFail o.dictionary? (.patternNotDictionary name)
  match doc.integer? entries "PatternType" with
  | some 1 =>
    let paintType := (doc.integer? entries "PaintType").getD 1
    let tilingType := (doc.integer? entries "TilingType").getD 1
    return { name, kind := .tiling paintType tilingType }
  | some 2 =>
    let shading ←
      match doc.get? entries "Shading" with
      | some o => ifUsable (doc.loadShading o)
      | none => pure none
    return { name, kind := .shading shading (entries.has "ExtGState") }
  | kind => throw (.patternTypeUnsupported name kind)

end PdfContent.Document
