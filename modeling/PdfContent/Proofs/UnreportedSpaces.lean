import PdfContent.Proofs.ImageParameters
import PdfContent.Proofs.LostResources
import PdfContent.Proofs.UnknownOperators

/-!
Color spaces of inline images that cannot be used. A name that gives no space is warned of, and so
is an array that is of no known family. What is neither a name nor an array is passed over without a
word, and so is an indexed space without a base or with a base that is passed over. These are all
the spaces that an image lacks and nothing tells of.
-/

namespace PdfContent

variable {σ : Type}

/-- A color space of which nothing comes, and no warning. -/
inductive Operand.PassedOver : Operand → Prop
  | other {o : Operand} (name : o.name? = none) (array : o.items? = none) : PassedOver o
  | baseless {key : String} (indexed : key ∈ ["I", "Indexed"]) : PassedOver (.array [.name key])
  | base {key : String} {base : Operand} (rest : List Operand) (indexed : key ∈ ["I", "Indexed"])
      (own : PassedOver base) : PassedOver (.array (.name key :: base :: rest))

namespace Interpreter

open Resolving InlineImage

variable (r : Resources σ)

theorem isIndexedName_iff {family : Option Operand} :
    isIndexedName family = true ↔ ∃ key ∈ ["I", "Indexed"], family = some (.name key) := by
  constructor
  · intro indexed
    unfold isIndexedName at indexed
    rcases family with _ | family
    · cases indexed
    · cases family with
      | name key => exact ⟨key, by simpa [Operand.name?] using indexed, rfl⟩
      | _ => cases indexed
  · rintro ⟨key, known, rfl⟩
    simpa [isIndexedName, Operand.name?] using known

theorem reports_inlineNamedSpace (name : String) :
    (inlineNamedSpace r name).Reports (· = none) := by
  unfold inlineNamedSpace
  split
  · split
    · exact reports_bind fun space => reports_pure (Option.some_ne_none space)
    · exact reports_pure (Option.some_ne_none _)
  · exact reports_lookup _ _ _

theorem passedOver_indexed_iff {key : String} {base : Operand} {rest : List Operand}
    (indexed : key ∈ ["I", "Indexed"]) :
    (Operand.array (.name key :: base :: rest)).PassedOver ↔ base.PassedOver := by
  constructor
  · intro passed
    cases passed with
    | other name array => cases array
    | base _ _ own => exact own
  · exact .base rest indexed

/-- Nothing comes of a color space, and no issue, just where it is passed over. -/
theorem inlineColorSpace_silent_iff (operand : Operand) (m : σ) :
    (inlineColorSpace r operand m).value = none ∧ (inlineColorSpace r operand m).issues = [] ↔
      operand.PassedOver := by
  fun_induction inlineColorSpace r operand with
  | case1 name =>
    constructor
    · rintro ⟨none, silent⟩
      exact absurd silent (reports_inlineNamedSpace r name m none)
    · intro passed
      cases passed with
      | other name array => cases name
  | case2 family base rest indexed ih =>
    obtain ⟨key, known, same⟩ := isIndexedName_iff.1 indexed
    obtain rfl := Option.some.inj same
    rw [passedOver_indexed_iff known, ← ih, bind_value, bind_issues]
    cases (inlineColorSpace r base m).value with
    | none => simp [pure_value]
    | some space => simp [pure_value]
  | case3 family base rest other =>
    constructor
    · rintro ⟨-, silent⟩
      cases silent
    · intro passed
      cases passed with
      | other name array => cases array
      | base _ known _ => exact absurd (isIndexedName_iff.2 ⟨_, known, rfl⟩) other
  | case4 items short indexed =>
    obtain ⟨key, known, first⟩ := isIndexedName_iff.1 indexed
    obtain ⟨rest, rfl⟩ := List.head?_eq_some_iff.1 first
    cases rest with
    | nil => exact iff_of_true ⟨rfl, rfl⟩ (.baseless known)
    | cons base rest => exact absurd rfl (short _ base rest)
  | case5 items short other =>
    constructor
    · rintro ⟨-, silent⟩
      cases silent
    · intro passed
      cases passed with
      | other name array => cases array
      | baseless known => exact absurd (isIndexedName_iff.2 ⟨_, known, rfl⟩) other
      | base _ known _ => exact absurd rfl (short _ _ _)
  | case6 operand named longer array =>
    refine iff_of_true ⟨rfl, rfl⟩ (.other ?_ ?_)
    · cases operand with
      | name text => exact absurd rfl (named text)
      | _ => rfl
    · cases operand with
      | array items => exact absurd rfl (array items)
      | _ => rfl

theorem inlineImage_issues (operands : List Operand) (c : Context) (m : σ) {operand : Operand}
    (declared : valueUnder ["CS", "ColorSpace"] (c.pendingImage.getD []) = some operand) :
    (inlineImage r operands c m).issues = (inlineColorSpace r operand m).issues := by
  unfold inlineImage
  rw [← lookup_expandKeys (by decide)] at declared
  simp only [declared, bind_issues, pure_value, List.append_nil]

theorem step_endImage_silent_iff (i : Interpreter) (operands : List Operand) (m : σ) :
    ∃ image, (i.step r "EI" operands m).1.1.kind = .inlineImage (some image) ∧
      ∀ operand, image.parameters.lookup "ColorSpace" = some operand →
        (image.colorSpace = none ∧ i.newWarnings r "EI" operands m = [] ↔ operand.PassedOver) := by
  obtain ⟨image, kind, made, space⟩ := step_endImage r i operands m
  refine ⟨image, kind, fun operand declared => ?_⟩
  have short : ("CS", "ColorSpace") ∈ fullKeys := by decide
  rw [expandKeys_iff.1 made.parameters, lookup_expandKeys short] at declared
  rw [declared, Option.bind_some] at space
  have issues : i.issues r "EI" operands m = (inlineColorSpace r operand m).issues :=
    (List.append_nil _).trans (inlineImage_issues r operands i.context m declared)
  rw [newWarnings, List.map_eq_nil_iff, issues, space]
  exact inlineColorSpace_silent_iff r operand m

end Interpreter

namespace Model

/-- With warnings collected, the image of an `EI` with a color space has the space resolved, or a
warning stands at the place of the `EI`, unless the space is passed over. -/
theorem ofTokens_imageSpace (r : Resources σ) (m : σ) (before after : List Token) :
    ∃ n image, (ofTokens r true (before ++ .operator "EI" :: after) m).1.nodes[
        (Token.operators before).length]? = some n ∧ n.kind = .inlineImage (some image) ∧
      ∀ operand, image.parameters.lookup "ColorSpace" = some operand →
        ((image.colorSpace ≠ none ∨
            ∃ w ∈ (ofTokens r true (before ++ .operator "EI" :: after) m).1.warnings,
              w.isAt (Token.operators before).length = true) ↔
          ¬ operand.PassedOver) := by
  obtain ⟨image, kind, silent⟩ := Interpreter.step_endImage_silent_iff r
    (Reading.ofTokens r true m before).1.interpreter (Token.waiting before)
    (Reading.ofTokens r true m before).2
  refine ⟨_, image, Reading.getElem?_nodes_ofTokens r true m before "EI" after, kind,
    fun operand declared => ?_⟩
  have here := Reading.warnings_at r m before "EI" after
  rw [← silent operand declared, ← here, List.filter_eq_nil_iff, not_and_or]
  refine or_congr_right ?_
  push Not
  rfl

def imageTokens (space : Operand) : List Token :=
  [.operator "BI", .operand (.dictionary [("CS", space)]), .operator "ID",
    .operand (.literal [0x78])]

def imageModel (space : Operand) : Model :=
  (ofTokens Resources.empty true (imageTokens space ++ [.operator "EI"]) ()).1

def unknownBase : Operand :=
  .array [.name "I", .array [.name "G"], .integer 1, .hex [0x00, 0xFF]]

theorem ofTokens_imageSpace_unknownBase :
    ∃ n image, (imageModel unknownBase).nodes[2]? = some n ∧ n.kind = .inlineImage (some image) ∧
      image.parameters.lookup "ColorSpace" = some unknownBase ∧ ¬ unknownBase.PassedOver ∧
      (image.colorSpace ≠ none ∨ ∃ w ∈ (imageModel unknownBase).warnings, w.isAt 2 = true) := by
  obtain ⟨n, image, found, kind, reported⟩ :=
    ofTokens_imageSpace Resources.empty () (imageTokens unknownBase) []
  have kinds : ((imageModel unknownBase).nodes[2]?).map Node.kind =
      some (.inlineImage (some (.ofParameters [("ColorSpace", unknownBase)] none 1))) := rfl
  have own := Option.some.inj ((congrArg (Option.map Node.kind) found).symm.trans kinds)
  rw [kind] at own
  cases own
  have warned : ¬ unknownBase.PassedOver := by
    intro passed
    cases passed with
    | other _ array => cases array
    | base _ _ inner =>
      cases inner with
      | other _ array => cases array
      | baseless known => simp at known
  exact ⟨n, _, found, kind, rfl, warned, (reported unknownBase rfl).2 warned⟩

/-- A number is no color space, and nothing tells so. -/
theorem ofTokens_imageSpace_number :
    ∃ n image, (imageModel (.integer 5)).nodes[2]? = some n ∧
      n.kind = .inlineImage (some image) ∧
      image.parameters.lookup "ColorSpace" = some (.integer 5) ∧ image.colorSpace = none ∧
      (imageModel (.integer 5)).warnings = [] :=
  ⟨_, _, rfl, rfl, rfl, rfl, rfl⟩

end Model

end PdfContent
