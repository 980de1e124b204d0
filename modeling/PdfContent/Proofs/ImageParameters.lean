import PdfContent.Proofs.OperatorNodes
import PdfContent.Proofs.StateParts

/-!
Inline images. An `EI` takes the parameters that an `ID` left for it. `BI` and `EI` leave none, and
no other operator touches them. So the last of these three in front of an `EI` tells its image, in
whatever order they stand, and no image has parameters of another one.
-/

namespace PdfContent

variable {σ : Type}

namespace InlineImage

inductive ShortKey : String → String → Prop
  | bitsPerComponent : ShortKey "BPC" "BitsPerComponent"
  | colorSpace : ShortKey "CS" "ColorSpace"
  | decode : ShortKey "D" "Decode"
  | decodeParms : ShortKey "DP" "DecodeParms"
  | filter : ShortKey "F" "Filter"
  | height : ShortKey "H" "Height"
  | imageMask : ShortKey "IM" "ImageMask"
  | interpolate : ShortKey "I" "Interpolate"
  | width : ShortKey "W" "Width"
  | length : ShortKey "L" "Length"

inductive ShortFilter : String → String → Prop
  | asciiHex : ShortFilter "AHx" "ASCIIHexDecode"
  | ascii85 : ShortFilter "A85" "ASCII85Decode"
  | lzw : ShortFilter "LZW" "LZWDecode"
  | flate : ShortFilter "Fl" "FlateDecode"
  | runLength : ShortFilter "RL" "RunLengthDecode"
  | ccittFax : ShortFilter "CCF" "CCITTFaxDecode"
  | dct : ShortFilter "DCT" "DCTDecode"

/-- What a name is in full. One that is no short form stays. -/
inductive InFull (short : String → String → Prop) : String → String → Prop
  | expanded {name full : String} (h : short name full) : InFull short name full
  | same {name : String} (h : ∀ full, ¬ short name full) : InFull short name name

theorem lookup_fullKeys_iff {key full : String} :
    fullKeys.lookup key = some full ↔ ShortKey key full := by
  constructor
  · intro found
    obtain ⟨front, rest, split, -⟩ := List.lookup_eq_some_iff.1 found
    have mem : (key, full) ∈ fullKeys := by simp [split]
    simp only [fullKeys, List.mem_cons, Prod.mk.injEq, List.not_mem_nil, or_false] at mem
    rcases mem with ⟨rfl, rfl⟩ | ⟨rfl, rfl⟩ | ⟨rfl, rfl⟩ | ⟨rfl, rfl⟩ | ⟨rfl, rfl⟩ | ⟨rfl, rfl⟩ |
      ⟨rfl, rfl⟩ | ⟨rfl, rfl⟩ | ⟨rfl, rfl⟩ | ⟨rfl, rfl⟩ <;> constructor
  · rintro (_ | _) <;> decide

theorem lookup_fullFilters_iff {name full : String} :
    fullFilters.lookup name = some full ↔ ShortFilter name full := by
  constructor
  · intro found
    obtain ⟨front, rest, split, -⟩ := List.lookup_eq_some_iff.1 found
    have mem : (name, full) ∈ fullFilters := by simp [split]
    simp only [fullFilters, List.mem_cons, Prod.mk.injEq, List.not_mem_nil, or_false] at mem
    rcases mem with ⟨rfl, rfl⟩ | ⟨rfl, rfl⟩ | ⟨rfl, rfl⟩ | ⟨rfl, rfl⟩ | ⟨rfl, rfl⟩ | ⟨rfl, rfl⟩ |
      ⟨rfl, rfl⟩ <;> constructor
  · rintro (_ | _) <;> decide

theorem inFull_iff {short : String → String → Prop} {table : List (String × String)}
    (lists : ∀ {name full}, table.lookup name = some full ↔ short name full) {name full : String} :
    InFull short name full ↔ full = expand table name := by
  unfold expand
  constructor
  · rintro (h | h)
    · rw [lists.2 h, Option.getD_some]
    · cases found : table.lookup name with
      | none => rfl
      | some other => exact absurd (lists.1 found) (h other)
  · rintro rfl
    cases found : table.lookup name with
    | none => exact .same fun full h => by cases found.symm.trans (lists.2 h)
    | some full => exact .expanded (lists.1 found)

def valueUnder (keys : List String) (entries : List (String × Operand)) : Option Operand :=
  (entries.find? fun entry => keys.contains entry.1).map Prod.snd

theorem expand_fullKeys_eq_iff {short full : String} (listed : (short, full) ∈ fullKeys)
    (key : String) : expand fullKeys key = full ↔ key = short ∨ key = full := by
  have known : ∀ entry ∈ fullKeys, fullKeys.lookup entry.1 = some entry.2 := by decide
  have fixed : ∀ entry ∈ fullKeys, fullKeys.lookup entry.2 = none := by decide
  have alone : ∀ entry ∈ fullKeys, ∀ other ∈ fullKeys, entry.2 = other.2 → entry.1 = other.1 := by
    decide
  constructor
  · intro expanded
    unfold expand at expanded
    cases found : fullKeys.lookup key with
    | none =>
      rw [found] at expanded
      exact .inr expanded
    | some name =>
      obtain ⟨front, rest, split, -⟩ := List.lookup_eq_some_iff.1 found
      have mem : (key, name) ∈ fullKeys := by simp [split]
      rw [found, Option.getD_some] at expanded
      exact .inl (alone _ mem _ listed expanded)
  · rintro (rfl | rfl)
    · rw [expand, known _ listed, Option.getD_some]
    · rw [expand, fixed _ listed, Option.getD_none]

theorem lookup_expandKeys {short full : String} (listed : (short, full) ∈ fullKeys)
    (entries : List (String × Operand)) :
    (expandKeys entries).lookup full = valueUnder [short, full] entries := by
  induction entries with
  | nil => rfl
  | cons entry entries ih =>
    obtain ⟨key, value⟩ := entry
    have written : [short, full].contains key = (full == expand fullKeys key) := by
      rw [Bool.eq_iff_iff, beq_iff_eq, eq_comm (a := full), expand_fullKeys_eq_iff listed]
      simp
    simp only [expandKeys, valueUnder, List.map_cons, List.lookup_cons, List.find?_cons, written]
    cases full == expand fullKeys key with
    | true => rfl
    | false => exact ih

inductive IntegerOf : Option Operand → Option Int → Prop
  | integer (i : Int) : IntegerOf (some (.integer i)) (some i)
  | real (x : Float) : IntegerOf (some (.real x)) (wholeNumber? x)
  | none {value : Option Operand} (integer : ∀ i, value ≠ some (.integer i))
      (real : ∀ x, value ≠ some (.real x)) : IntegerOf value none

theorem integerOf_iff {value : Option Operand} {read : Option Int} :
    IntegerOf value read ↔ read = value.bind Operand.integer? := by
  constructor
  · rintro (i | x | ⟨integer, real⟩)
    · rfl
    · rfl
    · rcases value with _ | value
      · rfl
      · cases value with
        | integer i => exact absurd rfl (integer i)
        | real x => exact absurd rfl (real x)
        | _ => rfl
  · rintro rfl
    rcases value with _ | value
    · exact .none nofun nofun
    · cases value with
      | integer i => exact .integer i
      | real x => exact .real x
      | _ => exact .none nofun nofun

inductive FiltersAmong : List Operand → List String → Prop
  | nil : FiltersAmong [] []
  | name {text full : String} {items : List Operand} {filters : List String}
      (h : InFull ShortFilter text full) (rest : FiltersAmong items filters) :
      FiltersAmong (.name text :: items) (full :: filters)
  | other {item : Operand} {items : List Operand} {filters : List String}
      (h : ∀ text, item ≠ .name text) (rest : FiltersAmong items filters) :
      FiltersAmong (item :: items) filters

theorem filtersAmong_iff {items : List Operand} {filters : List String} :
    FiltersAmong items filters ↔
      filters = (items.filterMap Operand.name?).map (expand fullFilters) := by
  constructor
  · intro h
    induction h with
    | nil => rfl
    | name h rest ih =>
      rw [ih, (inFull_iff lookup_fullFilters_iff).1 h]
      rfl
    | @other item items filters h rest ih =>
      cases item with
      | name text => exact absurd rfl (h text)
      | _ => exact ih
  · rintro rfl
    induction items with
    | nil => exact .nil
    | cons item items ih =>
      cases item with
      | name text => exact .name ((inFull_iff lookup_fullFilters_iff).2 rfl) ih
      | _ => exact .other nofun ih

/-- The filters that a value gives: one by its name, several by an array. -/
inductive FiltersOf : Option Operand → List String → Prop
  | name {text full : String} (h : InFull ShortFilter text full) :
      FiltersOf (some (.name text)) [full]
  | array {items : List Operand} {filters : List String} (h : FiltersAmong items filters) :
      FiltersOf (some (.array items)) filters
  | none {value : Option Operand} (name : ∀ text, value ≠ some (.name text))
      (array : ∀ items, value ≠ some (.array items)) : FiltersOf value []

theorem filtersOf_iff {value : Option Operand} {filters : List String} :
    FiltersOf value filters ↔ filters = filterNames value := by
  constructor
  · rintro (h | h | ⟨name, array⟩)
    · rw [(inFull_iff lookup_fullFilters_iff).1 h]
      rfl
    · exact filtersAmong_iff.1 h
    · rcases value with _ | value
      · rfl
      · cases value with
        | name text => exact absurd rfl (name text)
        | array items => exact absurd rfl (array items)
        | _ => rfl
  · rintro rfl
    rcases value with _ | value
    · exact .none nofun nofun
    · cases value with
      | name text => exact .name ((inFull_iff lookup_fullFilters_iff).2 rfl)
      | array items => exact .array (filtersAmong_iff.2 rfl)
      | _ => exact .none nofun nofun

/-- An image has what these entries of the stream say, and data of this length. -/
structure MadeOf (entries : List (String × Operand)) (dataLength : Nat) (image : InlineImage) :
    Prop where
  parameters : List.Forall₂ (fun entry parameter =>
    InFull ShortKey entry.1 parameter.1 ∧ parameter.2 = entry.2) entries image.parameters
  width : IntegerOf (valueUnder ["W", "Width"] entries) image.width
  height : IntegerOf (valueUnder ["H", "Height"] entries) image.height
  bitsPerComponent : IntegerOf (valueUnder ["BPC", "BitsPerComponent"] entries)
    image.bitsPerComponent
  imageMask : image.imageMask = true ↔
    valueUnder ["IM", "ImageMask"] entries = some (.boolean true)
  filters : FiltersOf (valueUnder ["F", "Filter"] entries) image.filters
  dataLength : image.dataLength = dataLength

theorem isTrue_iff (operand : Option Operand) :
    isTrue operand = true ↔ operand = some (.boolean true) := by
  unfold isTrue
  split <;> simp_all

theorem expandKeys_iff {entries parameters : List (String × Operand)} :
    List.Forall₂ (fun entry parameter =>
        InFull ShortKey entry.1 parameter.1 ∧ parameter.2 = entry.2) entries parameters ↔
      parameters = expandKeys entries := by
  have single : ∀ entry parameter : String × Operand,
      (InFull ShortKey entry.1 parameter.1 ∧ parameter.2 = entry.2) ↔
        (expand fullKeys entry.1, entry.2) = parameter := by
    intro entry parameter
    rw [inFull_iff lookup_fullKeys_iff, Prod.ext_iff, eq_comm, eq_comm (a := entry.2)]
  simp only [single]
  rw [← List.forall₂_map_left_iff, List.forall₂_eq_eq_eq, eq_comm, expandKeys]

theorem madeOf_ofParameters (entries : List (String × Operand)) (space : Option ColorSpace)
    (dataLength : Nat) :
    (ofParameters (expandKeys entries) space dataLength).MadeOf entries dataLength where
  parameters := expandKeys_iff.2 rfl
  width := by rw [← lookup_expandKeys (by decide)]; exact integerOf_iff.2 rfl
  height := by rw [← lookup_expandKeys (by decide)]; exact integerOf_iff.2 rfl
  bitsPerComponent := by rw [← lookup_expandKeys (by decide)]; exact integerOf_iff.2 rfl
  imageMask := by rw [← lookup_expandKeys (by decide)]; exact isTrue_iff _
  filters := by rw [← lookup_expandKeys (by decide)]; exact filtersOf_iff.2 rfl
  dataLength := rfl

/-- Entries tell all of an image but its color space. -/
theorem MadeOf.eq_ofParameters {entries : List (String × Operand)} {dataLength : Nat}
    {image : InlineImage} (h : image.MadeOf entries dataLength) :
    image = ofParameters (expandKeys entries) image.colorSpace dataLength := by
  have parameters := expandKeys_iff.1 h.parameters
  have width := integerOf_iff.1 h.width
  have height := integerOf_iff.1 h.height
  have bits := integerOf_iff.1 h.bitsPerComponent
  have mask := Bool.eq_iff_iff.2 (h.imageMask.trans (isTrue_iff _).symm)
  have filters := filtersOf_iff.1 h.filters
  have length := h.dataLength
  rw [← lookup_expandKeys (by decide)] at width height bits mask filters
  cases image
  subst parameters width height bits mask filters length
  rfl

end InlineImage

namespace Node

def isImageOperator (n : Node) : Bool := n.name == "BI" || n.name == "ID" || n.name == "EI"

/-- The entries that such an operator leaves: those of a dictionary in front of an `ID`. -/
def leftEntries (n : Node) : List (String × Operand) :=
  if n.name = "ID" then
    match n.operands with
    | .dictionary entries :: _ => entries
    | _ => []
  else []

def stringLength (n : Node) : Nat :=
  match n.operands with
  | .literal bytes :: _ => bytes.length
  | .hex bytes :: _ => bytes.length
  | _ => 0

/-- The entries that are left for an image behind these nodes, by the last one that leaves any. -/
def imageEntries (nodes : List Node) : List (String × Operand) :=
  ((nodes.filter isImageOperator).getLast?.map leftEntries).getD []

theorem imageEntries_concat (nodes : List Node) (n : Node) :
    imageEntries (nodes ++ [n]) =
      if n.isImageOperator then n.leftEntries else imageEntries nodes := by
  unfold imageEntries
  rw [List.filter_append]
  by_cases image : n.isImageOperator = true
  · rw [if_pos image, List.filter_cons_of_pos image, List.filter_nil, List.getLast?_concat]
    rfl
  · rw [if_neg image, List.filter_cons_of_neg image, List.filter_nil, List.append_nil]

theorem foldl_leftEntries (nodes : List Node) :
    nodes.foldl (fun entries n => if n.isImageOperator then n.leftEntries else entries) [] =
      imageEntries nodes := by
  induction nodes using List.reverseRecOn with
  | nil => rfl
  | append_singleton nodes n ih => rw [List.foldl_concat, ih, imageEntries_concat]

end Node

namespace Operation

theorem ofName_eq_beginImage_iff {name : String} : ofName name = beginImage ↔ name = "BI" :=
  ofName_eq_iff (by decide) (by decide) (by decide)

theorem ofName_eq_imageData_iff {name : String} : ofName name = imageData ↔ name = "ID" :=
  ofName_eq_iff (by decide) (by decide) (by decide)

theorem ofName_eq_endImage_iff {name : String} : ofName name = endImage ↔ name = "EI" :=
  ofName_eq_iff (by decide) (by decide) (by decide)

end Operation

namespace Interpreter

open Resolving InlineImage

variable (r : Resources σ)

theorem perform_pendingImage (name : String) (operands : List Operand) (c : Context)
    {op : Operation} (start : op ≠ .beginImage) (data : op ≠ .imageData)
    (finish : op ≠ .endImage) (m : σ) :
    (perform r name operands c op m).value.context.pendingImage = c.pendingImage := by
  by_cases within : op ∈ beyondStates
  · cases op with
    | beginImage => exact absurd rfl start
    | imageData => exact absurd rfl data
    | endImage => exact absurd rfl finish
    | beginCompatibility => rfl
    | endCompatibility => rfl
    | _ => simp [beyondStates] at within
  · rw [perform_context r name operands c within m]

/-- Image operators leave what their node tells, and all others leave what they find. -/
theorem step_pendingImage (i : Interpreter) (name : String) (operands : List Operand) (m : σ) :
    (i.step r name operands m).1.2.context.pendingImage.getD [] =
      if (i.step r name operands m).1.1.isImageOperator then
        (i.step r name operands m).1.1.leftEntries
      else i.context.pendingImage.getD [] := by
  by_cases image : (i.step r name operands m).1.1.isImageOperator = true
  · rw [if_pos image]
    simp only [Node.isImageOperator, step_name, Bool.or_eq_true, beq_iff_eq] at image
    obtain (rfl | rfl) | rfl := image
    · rfl
    · rcases operands with _ | ⟨operand, operands⟩
      · rfl
      · cases operand <;> rfl
    · rfl
  · rw [if_neg image]
    simp only [Node.isImageOperator, step_name, Bool.or_eq_true, beq_iff_eq, not_or] at image
    obtain ⟨⟨start, data⟩, finish⟩ := image
    exact congrArg (·.getD []) (perform_pendingImage r name operands i.context
      (mt Operation.ofName_eq_beginImage_iff.1 start) (mt Operation.ofName_eq_imageData_iff.1 data)
      (mt Operation.ofName_eq_endImage_iff.1 finish) m)

theorem inlineImage_value (operands : List Operand) (c : Context) (m : σ) :
    (inlineImage r operands c m).value =
      ofParameters (expandKeys (c.pendingImage.getD []))
        ((valueUnder ["CS", "ColorSpace"] (c.pendingImage.getD [])).bind fun operand =>
          (inlineColorSpace r operand m).value)
        (((operands.head?.bind Operand.bytes?).map List.length).getD 0) := by
  unfold inlineImage
  rw [← lookup_expandKeys (by decide)]
  cases (expandKeys (c.pendingImage.getD [])).lookup "ColorSpace" <;> rfl

theorem step_endImage (i : Interpreter) (operands : List Operand) (m : σ) :
    ∃ image, (i.step r "EI" operands m).1.1.kind = .inlineImage (some image) ∧
      image.MadeOf (i.context.pendingImage.getD []) (i.step r "EI" operands m).1.1.stringLength ∧
      image.colorSpace =
        (valueUnder ["CS", "ColorSpace"] (i.context.pendingImage.getD [])).bind fun operand =>
          (inlineColorSpace r operand m).value := by
  have op : Operation.ofName "EI" = .endImage := rfl
  have image := inlineImage_value r operands i.context m
  refine ⟨(inlineImage r operands i.context m).value, ?_, ?_, ?_⟩
  · simp only [step, op]
    rfl
  · have read : ((operands.head?.bind Operand.bytes?).map List.length).getD 0 =
        (i.step r "EI" operands m).1.1.stringLength := by
      rcases operands with _ | ⟨operand, operands⟩
      · rfl
      · cases operand <;> rfl
    rw [image, read]
    exact madeOf_ofParameters _ _ _
  · rw [image]
    rfl

end Interpreter

namespace Reading

theorem imageEntries_ofTokens (r : Resources σ) (collectsWarnings : Bool) (m : σ)
    (tokens : List Token) :
    (ofTokens r collectsWarnings m tokens).1.interpreter.context.pendingImage.getD [] =
      Node.imageEntries (ofTokens r collectsWarnings m tokens).1.nodes.toList := by
  rw [← Node.foldl_leftEntries]
  exact context_ofTokens r collectsWarnings m (fun c => c.pendingImage.getD [])
    (fun entries n => if n.isImageOperator then n.leftEntries else entries)
    (Interpreter.step_pendingImage r) tokens

end Reading

namespace Model

/-- The image of an `EI` is made of the dictionary in front of an `ID` if that `ID` is the last of
`BI`, `ID` and `EI` before it, and of nothing otherwise: all entries with full keys, of two values
for one key the first, and as many bytes of data as the string in front of the `EI` has. -/
theorem ofTokens_inlineImage (r : Resources σ) (collectsWarnings : Bool) (m : σ)
    (before after : List Token) :
    ∃ n image, (ofTokens r collectsWarnings (before ++ .operator "EI" :: after) m).1.nodes[
        (Token.operators before).length]? = some n ∧ n.kind = .inlineImage (some image) ∧
      image.MadeOf (Node.imageEntries (ofTokens r collectsWarnings before m).1.nodes)
        n.stringLength := by
  obtain ⟨image, kind, made, -⟩ := Interpreter.step_endImage r
    (Reading.ofTokens r collectsWarnings m before).1.interpreter (Token.waiting before)
    (Reading.ofTokens r collectsWarnings m before).2
  rw [Reading.imageEntries_ofTokens] at made
  exact ⟨_, image, Reading.getElem?_nodes_ofTokens r collectsWarnings m before "EI" after, kind,
    made⟩

theorem ofTokens_inlineImage_twoWidths :
    let first : List (String × Operand) := [("IM", .boolean true), ("F", .name "Fl")]
    let second : List (String × Operand) := [("W", .integer 2),
      ("F", .array [.name "AHx", .null, .name "JPX"]), ("Width", .integer 7), ("I", .boolean true)]
    let before : List Token := [.operator "BI", .operand (.dictionary first), .operator "ID",
      .operand (.literal [1]), .operator "EI", .operator "BI", .operand (.dictionary second),
      .operator "ID", .operator "q", .operand (.literal [97, 98])]
    ∃ n image, (ofTokens Resources.empty true (before ++ .operator "EI" :: []) ()).1.nodes[6]? =
        some n ∧ n.kind = .inlineImage (some image) ∧ image.width = some 2 ∧ image.height = none ∧
      image.imageMask = false ∧ image.filters = ["ASCIIHexDecode", "JPX"] ∧
      image.parameters.map Prod.fst = ["Width", "Filter", "Width", "Interpolate"] ∧
      image.dataLength = 2 := by
  intro first second before
  obtain ⟨n, image, node, kind, made⟩ := ofTokens_inlineImage Resources.empty true () before []
  have left : Node.imageEntries (ofTokens Resources.empty true before ()).1.nodes = second := rfl
  have data : n.stringLength = 2 := by
    cases node
    rfl
  rw [left, data] at made
  have whole := made.eq_ofParameters
  refine ⟨n, image, node, kind, ?_, ?_, ?_, ?_, ?_, ?_⟩ <;> rw [whole] <;> rfl

end Model

end PdfContent
