import PdfContent.Proofs.ImageParameters
import PdfContent.Proofs.PatternSpaces

/-!
Device spaces. A family is selected by an operator of its own, by its name in front of `cs` or
`CS`, and by either of its names in an inline image, also as the base of indexed spaces. Each way
asks for the space that replaces the family, and each takes the plain space where there is none.
-/

namespace PdfContent

variable {σ : Type}

namespace DeviceFamily

def fullName (family : DeviceFamily) : String := family.colorSpace.family

def shortName : DeviceFamily → String
  | gray => "G"
  | rgb => "RGB"
  | cmyk => "CMYK"

def operator : DeviceFamily → Side → String
  | gray, .fill => "g"
  | gray, .stroke => "G"
  | rgb, .fill => "rg"
  | rgb, .stroke => "RG"
  | cmyk, .fill => "k"
  | cmyk, .stroke => "K"

theorem ofName_operator (family : DeviceFamily) (side : Side) :
    Operation.ofName (family.operator side) = .deviceColor side family := by
  cases family <;> cases side <;> rfl

theorem fullFamily?_fullName (family : DeviceFamily) :
    Interpreter.fullFamily? family.fullName = some family := by
  cases family <;> rfl

theorem ofFamilyName?_of_mem {family : DeviceFamily} {name : String}
    (own : name ∈ [family.fullName, family.shortName]) :
    ColorSpace.ofFamilyName? name = some family.colorSpace := by
  rw [List.mem_pair] at own
  obtain rfl | rfl := own
  · cases family <;> rfl
  · cases family <;> rfl

theorem deviceFamily?_colorSpace (family : DeviceFamily) :
    family.colorSpace.deviceFamily? = some family := by
  cases family <;> rfl

end DeviceFamily

def Side.spaceOperator : Side → String
  | fill => "cs"
  | stroke => "CS"

/-- What a family stands for: the space that replaces it if that is found, else the plain one. -/
def Resources.familySpace (r : Resources σ) (family : DeviceFamily) (m : σ) : ColorSpace :=
  match (r.defaultColorSpace family m).1 with
  | .ok (some space) => space
  | .ok none => family.colorSpace
  | .error _ => family.colorSpace

/-- An operand that denotes a space of an inline image through a family that stands for `space`: a
name of the family, or an indexed array over such an operand. -/
inductive Operand.Denotes (family : DeviceFamily) (space : ColorSpace) :
    Operand → ColorSpace → Prop
  | name {text : String} (own : text ∈ [family.fullName, family.shortName]) :
      Denotes family space (.name text) space
  | indexed {key : String} {base : Operand} {under : ColorSpace} (rest : List Operand)
      (known : key ∈ ["I", "Indexed"]) (h : Denotes family space base under) :
      Denotes family space (.array (.name key :: base :: rest))
        (.indexed under (Interpreter.highestIndex rest.head?))

namespace Interpreter

open Resolving GraphicsState

variable (r : Resources σ)

theorem deviceSpace_value (family : DeviceFamily) (m : σ) :
    (deviceSpace r family m).value = r.familySpace family m := by
  simp only [deviceSpace, bind_value, Resources.familySpace, ask]
  rcases (r.defaultColorSpace family m).1 with failure | (_ | space) <;> rfl

theorem namedColorSpace_value_of_fullName (family : DeviceFamily) {operands : List Operand}
    (named : operands.head? = some (.name family.fullName)) (m : σ) :
    (namedColorSpace r operands m).value = r.familySpace family m := by
  have name : operands.head?.bind Operand.name? = some family.fullName := by
    rw [named]
    rfl
  simp only [namedColorSpace, bind_value, nameOperand_value, nameOperand_memory, name,
    family.fullFamily?_fullName]
  exact deviceSpace_value r family m

theorem inlineNamedSpace_value_of_mem {family : DeviceFamily} {name : String}
    (own : name ∈ [family.fullName, family.shortName]) (m : σ) :
    (inlineNamedSpace r name m).value = some (r.familySpace family m) := by
  simp only [inlineNamedSpace, DeviceFamily.ofFamilyName?_of_mem own,
    family.deviceFamily?_colorSpace, bind_value, pure_value, deviceSpace_value]

theorem isIndexedName_of_mem {key : String} (known : key ∈ ["I", "Indexed"]) :
    isIndexedName (some (.name key)) = true := by
  rw [List.mem_pair] at known
  obtain rfl | rfl := known <;> rfl

theorem inlineColorSpace_of_denotes {family : DeviceFamily} {m : σ} {operand : Operand}
    {result : ColorSpace} (h : operand.Denotes family (r.familySpace family m) result) :
    (inlineColorSpace r operand m).value = some result := by
  induction h with
  | name own =>
    rw [inlineColorSpace]
    exact inlineNamedSpace_value_of_mem r own m
  | indexed rest known _ ih =>
    rw [inlineColorSpace, if_pos (isIndexedName_of_mem known), bind_value, ih]
    rfl

theorem step_familyOperator (i : Interpreter) (family : DeviceFamily) (side : Side)
    (operands : List Operand) (m : σ) :
    ∃ s, (i.step r (family.operator side) operands m).1.1.state = some s ∧
      (s.paint side).colorSpace = r.familySpace family m := by
  have op := family.ofName_operator side
  refine ⟨i.state.selectColorSpace side (deviceSpace r family m).value, ?_, ?_⟩
  · simp only [step, op]
    rfl
  · rw [paint_selectColorSpace, deviceSpace_value]

theorem step_spaceOperator (i : Interpreter) (side : Side) (operands : List Operand) (m : σ) :
    ∃ s, (i.step r side.spaceOperator operands m).1.1.state = some s ∧
      (s.paint side).colorSpace = (namedColorSpace r operands m).value := by
  have op : Operation.ofName side.spaceOperator = .colorSpace side := by cases side <;> rfl
  refine ⟨i.state.selectColorSpace side (namedColorSpace r operands m).value, ?_, ?_⟩
  · simp only [step, op]
    rfl
  · rw [paint_selectColorSpace]

end Interpreter

namespace Model

/-- Whichever way a device family is selected, the space is the one that the resources declare in
its place, and the plain device space if they declare none or fail: behind the operator of the
family, behind `cs` and `CS` with its full name, and in an inline image whose color space is one of
its names or rests on one. -/
theorem ofTokens_deviceSpace (r : Resources σ) (collectsWarnings : Bool) (m : σ)
    (family : DeviceFamily) (before after : List Token) :
    (∀ side, ∃ n s,
      (ofTokens r collectsWarnings (before ++ .operator (family.operator side) :: after) m).1.nodes[
          (Token.operators before).length]? = some n ∧ n.state = some s ∧
        (s.paint side).colorSpace =
          r.familySpace family (Reading.ofTokens r collectsWarnings m before).2) ∧
    ((Token.waiting before).head? = some (.name family.fullName) → ∀ side, ∃ n s,
      (ofTokens r collectsWarnings (before ++ .operator side.spaceOperator :: after) m).1.nodes[
          (Token.operators before).length]? = some n ∧ n.state = some s ∧
        (s.paint side).colorSpace =
          r.familySpace family (Reading.ofTokens r collectsWarnings m before).2) ∧
    ∀ operand result,
      InlineImage.valueUnder ["CS", "ColorSpace"]
        (Node.imageEntries (ofTokens r collectsWarnings before m).1.nodes) = some operand →
      operand.Denotes family
        (r.familySpace family (Reading.ofTokens r collectsWarnings m before).2) result →
      ∃ n image, (ofTokens r collectsWarnings (before ++ .operator "EI" :: after) m).1.nodes[
          (Token.operators before).length]? = some n ∧ n.kind = .inlineImage (some image) ∧
        image.colorSpace = some result := by
  have node (name : String) :=
    Reading.getElem?_nodes_ofTokens r collectsWarnings m before name after
  refine ⟨?_, ?_, ?_⟩
  · intro side
    obtain ⟨s, state, space⟩ := Interpreter.step_familyOperator r
      (Reading.ofTokens r collectsWarnings m before).1.interpreter family side
      (Token.waiting before) (Reading.ofTokens r collectsWarnings m before).2
    exact ⟨_, s, node _, state, space⟩
  · intro named side
    obtain ⟨s, state, space⟩ := Interpreter.step_spaceOperator r
      (Reading.ofTokens r collectsWarnings m before).1.interpreter side (Token.waiting before)
      (Reading.ofTokens r collectsWarnings m before).2
    rw [Interpreter.namedColorSpace_value_of_fullName r family named] at space
    exact ⟨_, s, node _, state, space⟩
  · intro operand result written denotes
    obtain ⟨image, kind, -, space⟩ := Interpreter.step_endImage r
      (Reading.ofTokens r collectsWarnings m before).1.interpreter (Token.waiting before)
      (Reading.ofTokens r collectsWarnings m before).2
    have left := Reading.imageEntries_ofTokens r collectsWarnings m before
    change InlineImage.valueUnder _ (Node.imageEntries
      (Reading.ofTokens r collectsWarnings m before).1.nodes.toList) = some operand at written
    rw [left, written, Option.bind_some, Interpreter.inlineColorSpace_of_denotes r denotes] at space
    exact ⟨_, image, node _, kind, space⟩

def calibratedTable : ResourceTable where
  colorSpaces := [("DefaultGray", .calGray)]

def grayPalette : Operand := .array [.name "I", .name "G", .integer 3]

def grayPaletteTokens : List Token :=
  [.operand (.dictionary [("CS", grayPalette)]), .operator "ID", .operand (.name "DeviceGray")]

theorem ofTokens_deviceSpace_grayPalette :
    (Token.waiting grayPaletteTokens).head? = some (.name "DeviceGray") ∧
      InlineImage.valueUnder ["CS", "ColorSpace"] (Node.imageEntries
        (ofTokens calibratedTable.resources true grayPaletteTokens ()).1.nodes) =
          some grayPalette ∧
      grayPalette.Denotes .gray .calGray (.indexed .calGray 3) ∧
      (∃ n s, (ofTokens calibratedTable.resources true
          (grayPaletteTokens ++ .operator "CS" :: []) ()).1.nodes[1]? = some n ∧
        n.state = some s ∧ s.stroke.colorSpace = .calGray) ∧
      ∃ n image, (ofTokens calibratedTable.resources true
          (grayPaletteTokens ++ .operator "EI" :: []) ()).1.nodes[1]? = some n ∧
        n.kind = .inlineImage (some image) ∧ image.colorSpace = some (.indexed .calGray 3) := by
  have named : (Token.waiting grayPaletteTokens).head? = some (.name "DeviceGray") := rfl
  have written : InlineImage.valueUnder ["CS", "ColorSpace"] (Node.imageEntries
      (ofTokens calibratedTable.resources true grayPaletteTokens ()).1.nodes) =
        some grayPalette := rfl
  have denotes : grayPalette.Denotes .gray .calGray (.indexed .calGray 3) :=
    .indexed [.integer 3] (by decide) (.name (by decide))
  obtain ⟨-, byName, inImage⟩ :=
    ofTokens_deviceSpace calibratedTable.resources true () .gray grayPaletteTokens []
  exact ⟨named, written, denotes, byName named .stroke, inImage _ _ written denotes⟩

end Model

end PdfContent
