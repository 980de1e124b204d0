import PdfContent.Document.Basic
import PdfContent.Font

/-!
Fonts of a document. What a font cannot do without is a failure when it is missing; a program or a
map to Unicode that cannot be read counts as absent.
-/

namespace PdfContent.Document

inductive FontFileKind
  | type1
  | trueType
  | fontFile3
  deriving DecidableEq, Inhabited

structure FontFile where
  kind : FontFileKind
  data : Bytes
  deriving DecidableEq, Inhabited

structure FontDescriptor where
  flags : Int := 0
  missingWidth : Option Float := none
  fontFile : Option FontFile := none
  fontFileSubtype : Option String := none
  deriving Inhabited

def FontDescriptor.isSymbolic (d : FontDescriptor) : Bool := d.flags / 4 % 2 == 1

def fontFileKeys : List (String × FontFileKind) :=
  [("FontFile", .type1), ("FontFile2", .trueType), ("FontFile3", .fontFile3)]

def fontFileStream? (doc : Document) (d : Dictionary) :
    Option (FontFileKind × Dictionary × Bytes) :=
  fontFileKeys.findSome? fun entry =>
    match doc.get? d entry.1 with
    | some (.stream entries data) => some (entry.2, entries, data)
    | _ => none

def readDescriptor (doc : Document) (d : Dictionary) : Except DocumentFault FontDescriptor :=
  let base : FontDescriptor :=
    { flags := (doc.integer? d "Flags").getD 0, missingWidth := doc.number? d "MissingWidth" }
  match doc.fontFileStream? d with
  | none => .ok base
  | some (kind, entries, data) =>
    (doc.streamData entries data).map fun data =>
      { base with
        fontFile := some ⟨kind, data⟩
        fontFileSubtype := if kind = .fontFile3 then doc.name? entries "Subtype" else none }

def descriptorOf (doc : Document) (d : Option Dictionary) :
    Except DocumentFault FontDescriptor :=
  match d with
  | some d => doc.readDescriptor d
  | none => .ok {}

def program? (doc : Document) (descriptor : FontDescriptor) (cidToGid : CidToGid) :
    Option FontProgram :=
  match descriptor.fontFile with
  | none => none
  | some file =>
    let readable : Bool :=
      match file.kind with
      | .trueType => true
      | .fontFile3 => descriptor.fontFileSubtype == some "OpenType"
      | .type1 => false
    if readable then
      (doc.decoders.face file.data).toOption.map fun face => face.program cidToGid
    else none

def simpleWidths (doc : Document) (font : Dictionary) (descriptor : Option Dictionary) :
    SimpleWidths where
  widths := ((doc.array? font "Widths").getD []).map fun o => (doc.resolve o).number?.getD 0.0
  firstChar := ((doc.number? font "FirstChar").map fun x => x.toUInt32.toNat).getD 0
  missing := descriptor.bind fun d => doc.number? d "MissingWidth"

def differenceStart (i : Int) : Nat := (Numeral.unsigned32? i).getD 0

/-- Runs of names behind integers. The runs are built newest first, and so are their names. -/
def differenceStep (runs : List DifferenceRun) (o : PdfObject) : List DifferenceRun :=
  match o, runs with
  | .integer i, _ => ⟨differenceStart i, []⟩ :: runs
  | .name n, run :: rest => { run with names := n.toText :: run.names } :: rest
  | _, _ => runs

def differenceRuns (doc : Document) (items : List PdfObject) : List DifferenceRun :=
  let runs := (items.map doc.resolve).foldl differenceStep []
  (runs.map fun run => { run with names := run.names.reverse }).reverse

def encoding? (doc : Document) (font : Dictionary) : Option SimpleEncoding :=
  match doc.get? font "Encoding" with
  | some (.name n) => (BaseEncoding.ofName? n.toText).map fun base => { base := some base }
  | some (.dictionary d) =>
    let base := (doc.name? d "BaseEncoding").bind BaseEncoding.ofName?
    let runs := doc.differenceRuns ((doc.array? d "Differences").getD [])
    some (SimpleEncoding.applyRuns { base } runs)
  | _ => none

def withStandardBase (encoding : Option SimpleEncoding) : SimpleEncoding :=
  let encoding := encoding.getD {}
  { encoding with base := encoding.base.or (some .standard) }

def procedureNames (doc : Document) (font : Dictionary) : List String :=
  ((doc.dictionary? font "CharProcs").getD []).map fun entry => Bytes.toText entry.1

/-- Fonts that are neither symbolic nor of Type 3 have a base encoding in any case. -/
def readSimple (doc : Document) (font : Dictionary) (kind : SimpleFontKind) :
    Except DocumentFault Font := do
  let descriptorEntries := doc.dictionary? font "FontDescriptor"
  let descriptor ← doc.descriptorOf descriptorEntries
  let declared := doc.encoding? font
  let encoding :=
    if kind != .type3 && !descriptor.isSymbolic then some (withStandardBase declared)
    else declared
  let program :=
    if kind == .type3 then some (FontProgram.ofProcedures (doc.procedureNames font))
    else doc.program? descriptor .identity
  return {
    body := .simple kind encoding (doc.simpleWidths font descriptorEntries)
    program }

inductive WidthEntry
  | listed (first : Nat) (widths : List (Option Float))
  | range (first span : Nat) (width : Float)

def widthRange? (first last : Nat) (width : Option Float) : Option WidthEntry :=
  width.bind fun width => (CMap.span? first last).map fun span => .range first span width

/-- The entries of a width array: a first CID with a list of widths, or two CIDs with one width.
What fits neither form is passed over. -/
def widthEntries (doc : Document) : List PdfObject → List WidthEntry
  | [] => []
  | [_] => []
  | first :: next :: rest =>
    match (doc.resolve first).number? with
    | none => widthEntries doc (next :: rest)
    | some first =>
      match doc.resolve next with
      | .array items =>
        .listed first.toUInt32.toNat (items.map fun o => (doc.resolve o).number?) ::
          widthEntries doc rest
      | next =>
        match next.number? with
        | none => widthEntries doc rest
        | some last =>
          (widthRange? first.toUInt32.toNat last.toUInt32.toNat
            ((rest.head?.map doc.resolve).bind PdfObject.number?)).toList ++
              widthEntries doc rest.tail
termination_by items => items.length
decreasing_by all_goals (simp only [List.length_cons, List.length_tail]; omega)

def insertWidth (m : Std.TreeMap Nat Float) (entry : Option Float × Nat) :
    Std.TreeMap Nat Float :=
  match entry.1 with
  | some width => if entry.2 ≤ Numeral.greatest32 then m.insert entry.2 width else m
  | none => m

def applyWidths (m : Std.TreeMap Nat Float) : WidthEntry → Std.TreeMap Nat Float
  | .listed first widths => (widths.zipIdx first).foldl insertWidth m
  | .range first span width =>
    ((List.replicate (span + 1) (some width)).zipIdx first).foldl insertWidth m

def cidWidths (doc : Document) (items : List PdfObject) : Std.TreeMap Nat Float :=
  (doc.widthEntries items).foldl applyWidths ∅

structure CidSystemInfo where
  registry : String
  ordering : String
  supplement : Int
  deriving DecidableEq, Inhabited

structure CidFont where
  kind : CidFontKind
  widths : CidWidths
  cidToGid : CidToGid
  systemInfo : Option CidSystemInfo

def systemInfo? (doc : Document) (d : Dictionary) : Option CidSystemInfo :=
  (doc.dictionary? d "CIDSystemInfo").map fun info =>
    { registry := ((doc.get? info "Registry").bind PdfObject.text?).getD ""
      ordering := ((doc.get? info "Ordering").bind PdfObject.text?).getD ""
      supplement := (doc.integer? info "Supplement").getD 0 }

def cidFontKind (doc : Document) (d : Dictionary) : Except FontFault CidFontKind :=
  match doc.name? d "Subtype" with
  | none => .ok .type2
  | some name =>
    if name == "CIDFontType0" then .ok .type0
    else if name == "CIDFontType2" then .ok .type2
    else .error (.descendantUnknown name)

def readCidFont (doc : Document) (d : Dictionary) : Except Failure CidFont := do
  let kind ← (doc.cidFontKind d).mapError .font
  let cidToGid ←
    match doc.get? d "CIDToGIDMap" with
    | some (.stream entries data) =>
      ((doc.streamData entries data).map CidToGid.ofBytes).mapError .document
    | _ => pure .identity
  return {
    kind, cidToGid
    widths := {
      widths := doc.cidWidths ((doc.array? d "W").getD [])
      default := (doc.number? d "DW").getD defaultCidWidth }
    systemInfo := doc.systemInfo? d }

def descendant? (doc : Document) (font : Dictionary) : Option Dictionary :=
  match (doc.array? font "DescendantFonts").bind List.head? with
  | none => none
  | some first =>
    match doc.resolve first with
    | .dictionary d => some d
    | _ => none

def readMapping (doc : Document) (font : Dictionary) : Except Failure CidMapping :=
  match doc.get? font "Encoding" with
  | some (.name n) =>
    match PredefinedCMap.ofName? n.toText with
    | some (.identity _) => .ok .identity
    | some predefined => .ok (.predefined predefined)
    | none => .error (.font (.predefinedUnknown n.toText))
  | some (.stream entries data) => do
    let data ← (doc.streamData entries data).mapError .document
    let map ← (CidCMap.parse data).mapError .font
    return .embedded map
  | _ => .error (.font .encodingMissing)

def readComposite (doc : Document) (font : Dictionary) : Except Failure Font := do
  let mapping ← doc.readMapping font
  match doc.descendant? font with
  | none => throw (.font .descendantMissing)
  | some d =>
    let cidFont ← doc.readCidFont d
    let descriptor ← (doc.descriptorOf (doc.dictionary? d "FontDescriptor")).mapError .document
    let cidToGid := if cidFont.kind = .type2 then cidFont.cidToGid else .identity
    return {
      body := .composite mapping cidFont.widths (some cidFont.kind)
      program := doc.program? descriptor cidToGid }

/-- The map to Unicode. One that cannot be read counts as absent, unless reading it came down. -/
def toUnicode? (doc : Document) (font : Dictionary) : Except Failure (Option ToUnicodeCMap) :=
  match doc.get? font "ToUnicode" with
  | some (.stream entries data) =>
    match doc.streamData entries data with
    | .error _ => .ok none
    | .ok data =>
      match ToUnicodeCMap.parse data with
      | .ok map => .ok (some map)
      | .error (.crash cause) => .error (.font (.crash cause))
      | .error _ => .ok none
  | _ => .ok none

def readFontBody (doc : Document) (font : Dictionary) : Except Failure Font :=
  match doc.name? font "Subtype" with
  | none => .error (.font .subtypeMissing)
  | some name =>
    if name == "Type0" then doc.readComposite font
    else
      match SimpleFontKind.ofName? name with
      | some kind => (doc.readSimple font kind).mapError .document
      | none => .error (.font (.subtypeUnsupported name))

def readFont (doc : Document) (font : Dictionary) : Except Failure Font := do
  let f ← doc.readFontBody font
  let toUnicode ← doc.toUnicode? font
  return { f with
    baseFont := doc.name? font "BaseFont", toUnicode, charsetText? := doc.decoders.charset }

end PdfContent.Document
