import PdfContent.Proofs.OperatorNodes
import PdfContent.Proofs.StateParts

/-!
Unknown operators. What the table of operators does not spell is passed on with its operands, and a
warning tells so unless a compatibility section is open there. How many are open is counted by `BX`
and `EX` alone, and an `EX` too many closes nothing. No other operator gives that warning, since
each has issues only of the codes that its operation may come upon.
-/

namespace PdfContent

variable {σ α β : Type}

namespace Resolving

def Notes (codes : List WarningCode) (x : Resolving σ α) : Prop :=
  ∀ m, ∀ issue ∈ (x m).issues, issue.code ∈ codes

variable {codes : List WarningCode} {x : Resolving σ α} {f : α → Resolving σ β}

theorem notes_pure (a : α) : (pure a : Resolving σ α).Notes codes :=
  fun _ _ mem => absurd mem List.not_mem_nil

theorem Notes.bind (first : x.Notes codes) (rest : ∀ a, (f a).Notes codes) :
    (x >>= f).Notes codes := by
  intro m issue mem
  rw [bind_issues] at mem
  rcases List.mem_append.1 mem with own | later
  · exact first m issue own
  · exact rest _ _ issue later

theorem notes_note {code : WarningCode} (own : code ∈ codes) (description : String) :
    (note code description : Resolving σ Unit).Notes codes := by
  intro m issue mem
  rw [List.mem_singleton.1 mem]
  exact own

theorem notes_ask (find : σ → Found α × σ) : (ask find).Notes codes :=
  fun _ _ mem => absurd mem List.not_mem_nil

theorem notes_lookup (lost : .resourceNotFound ∈ codes) (what : String) (find : Lookup σ α)
    (name : String) : (lookup what find name).Notes codes := by
  refine (notes_ask _).bind fun found => ?_
  split
  · exact notes_pure _
  · exact (notes_note lost _).bind fun _ => notes_pure _
  · exact (notes_note lost _).bind fun _ => notes_pure _

end Resolving

def Operation.codes : Operation → List WarningCode
  | dashPattern => [.malformedOperand]
  | transform => [.malformedOperand]
  | renderingMode => [.malformedOperand]
  | deviceColor .. => [.resourceNotFound]
  | extGState => [.malformedOperand, .resourceNotFound]
  | colorSpace _ => [.malformedOperand, .resourceNotFound]
  | colorOrPattern _ => [.malformedOperand, .resourceNotFound]
  | textFont => [.malformedOperand, .resourceNotFound]
  | textShow _ => [.malformedOperand, .resourceNotFound]
  | endImage => [.malformedOperand, .resourceNotFound]
  | shading => [.malformedOperand, .resourceNotFound]
  | xobject => [.malformedOperand, .resourceNotFound]
  | unknown => [.unsupportedOperator]
  | _ => []

namespace Interpreter

open Resolving

section

variable {codes : List WarningCode} (malformed : .malformedOperand ∈ codes)
  (lost : .resourceNotFound ∈ codes) (r : Resources σ)

include malformed in
theorem notes_nameOperand (operands : List Operand) :
    (nameOperand operands : Resolving σ (Option String)).Notes codes := by
  unfold nameOperand
  split
  · exact notes_pure _
  · exact (notes_note malformed _).bind fun _ => notes_pure _

include lost in
theorem notes_deviceSpace (family : DeviceFamily) : (deviceSpace r family).Notes codes := by
  refine (notes_ask _).bind fun found => ?_
  split
  · exact notes_pure _
  · exact notes_pure _
  · exact (notes_note lost _).bind fun _ => notes_pure _

include malformed in
theorem notes_dashPattern (operands : List Operand) :
    (dashPattern operands : Resolving σ (Option DashPattern)).Notes codes := by
  unfold dashPattern
  dsimp only
  split
  · exact notes_pure _
  · exact (notes_note malformed _).bind fun _ => notes_pure _

include malformed in
theorem notes_matrix (operands : List Operand) :
    (matrix operands : Resolving σ Matrix).Notes codes := by
  unfold matrix
  split
  · exact notes_pure _
  · exact (notes_note malformed _).bind fun _ => notes_pure _

include malformed in
theorem notes_renderingMode (operands : List Operand) :
    (renderingMode operands : Resolving σ RenderingMode).Notes codes := by
  unfold renderingMode
  split
  · exact notes_pure _
  · exact (notes_note malformed _).bind fun _ => notes_pure _

include malformed in
theorem notes_shownStrings (operands : List Operand) (shown : ShownOperand) :
    (shownStrings operands shown : Resolving σ (List Bytes)).Notes codes := by
  unfold shownStrings
  split
  · exact notes_pure _
  · exact (notes_note malformed _).bind fun _ => notes_pure _

include lost in
theorem notes_selectedFont (gs : GraphicsState) : (selectedFont r gs).Notes codes := by
  unfold selectedFont
  split
  · exact notes_lookup lost _ _ _
  · exact (notes_note lost _).bind fun _ => notes_pure _

include lost in
theorem notes_inlineNamedSpace (name : String) : (inlineNamedSpace r name).Notes codes := by
  unfold inlineNamedSpace
  split
  · split
    · exact (notes_deviceSpace lost r _).bind fun _ => notes_pure _
    · exact notes_pure _
  · exact notes_lookup lost _ _ _

include malformed lost

theorem notes_namedColorSpace (operands : List Operand) :
    (namedColorSpace r operands).Notes codes := by
  refine (notes_nameOperand malformed operands).bind fun name => ?_
  split
  · exact notes_pure _
  · split
    · exact notes_deviceSpace lost r _
    · split
      · exact notes_pure _
      · exact (notes_lookup lost _ _ _).bind fun _ => notes_pure _

theorem notes_selectPattern (side : Side) (operands : List Operand) (gs : GraphicsState) :
    (selectPattern r side operands gs).Notes codes := by
  unfold selectPattern
  split
  · split
    · exact (notes_note malformed _).bind fun _ => notes_pure _
    · exact (notes_lookup lost _ _ _).bind fun _ => notes_pure _
  · exact notes_pure _

theorem notes_extGState (operands : List Operand) (c : Context) :
    (extGState r operands c).Notes codes := by
  refine (notes_nameOperand malformed operands).bind fun name => ?_
  split
  · exact notes_pure _
  · refine (notes_lookup lost _ _ _).bind fun ext => ?_
    split <;> exact notes_pure _

theorem notes_textFont (operands : List Operand) (c : Context) :
    (textFont r operands c).Notes codes := by
  unfold textFont
  split
  · exact (notes_lookup lost _ _ _).bind fun _ => notes_pure _
  · exact (notes_note malformed _).bind fun _ => notes_pure _

theorem notes_inlineColorSpace (operand : Operand) :
    (inlineColorSpace r operand).Notes codes := by
  fun_induction inlineColorSpace r operand with
  | case1 name => exact notes_inlineNamedSpace lost r name
  | case2 family base rest indexed ih =>
    refine ih.bind fun space => ?_
    split <;> exact notes_pure _
  | case3 family base rest other => exact (notes_note malformed _).bind fun _ => notes_pure _
  | case4 items short indexed => exact notes_pure _
  | case5 items short other => exact (notes_note malformed _).bind fun _ => notes_pure _
  | case6 => exact notes_pure _

theorem notes_inlineImage (operands : List Operand) (c : Context) :
    (inlineImage r operands c).Notes codes := by
  unfold inlineImage
  dsimp only
  split
  · exact (notes_inlineColorSpace malformed lost r _).bind fun _ => notes_pure _
  · exact (notes_pure _).bind fun _ => notes_pure _

end

theorem notes_perform (r : Resources σ) (name : String) (operands : List Operand) (c : Context)
    (op : Operation) : (perform r name operands c op).Notes op.codes := by
  have malformed : .malformedOperand ∈ [WarningCode.malformedOperand, .resourceNotFound] := by
    decide
  have lost : .resourceNotFound ∈ [WarningCode.malformedOperand, .resourceNotFound] := by decide
  cases op with
  | dashPattern => exact (notes_dashPattern (by decide) operands).bind fun _ => notes_pure _
  | extGState => exact notes_extGState malformed lost r operands c
  | transform => exact (notes_matrix (by decide) operands).bind fun _ => notes_pure _
  | deviceColor side family =>
    exact (notes_deviceSpace List.mem_cons_self r family).bind fun _ => notes_pure _
  | colorSpace side =>
    exact (notes_namedColorSpace malformed lost r operands).bind fun _ => notes_pure _
  | colorOrPattern side =>
    exact (notes_selectPattern malformed lost r side operands c.live).bind fun _ => notes_pure _
  | renderingMode => exact (notes_renderingMode (by decide) operands).bind fun _ => notes_pure _
  | textFont => exact notes_textFont malformed lost r operands c
  | textShow shown =>
    exact (notes_shownStrings malformed operands shown).bind fun _ =>
      (notes_selectedFont lost r c.live).bind fun _ => notes_pure _
  | endImage => exact (notes_inlineImage malformed lost r operands c).bind fun _ => notes_pure _
  | shading =>
    refine (notes_nameOperand malformed operands).bind fun found => ?_
    split
    · exact (notes_lookup lost _ _ _).bind fun _ => notes_pure _
    · exact notes_pure _
  | xobject =>
    refine (notes_nameOperand malformed operands).bind fun found => ?_
    dsimp only
    split
    · exact (notes_lookup lost _ _ _).bind fun _ => notes_pure _
    · exact (notes_pure _).bind fun _ => notes_pure _
  | unknown =>
    simp only [perform]
    split
    · exact (notes_note (by decide) _).bind fun _ => notes_pure _
    · exact (notes_pure _).bind fun _ => notes_pure _
  | _ => exact notes_pure _

theorem unsupported_mem_codes_iff {op : Operation} :
    .unsupportedOperator ∈ op.codes ↔ op = .unknown := by
  cases op <;> simp [Operation.codes]

theorem extGState_kind_ne_generic (r : Resources σ) (operands : List Operand) (c : Context)
    (m : σ) : (extGState r operands c m).value.kind ≠ .generic := by
  intro generic
  simp only [extGState, bind_value] at generic
  cases named : (nameOperand operands m).value with
  | none =>
    rw [named] at generic
    cases generic
  | some name =>
    simp only [named, bind_value] at generic
    cases found : (lookup "ExtGState" r.extGState name _).value <;> rw [found] at generic <;>
      cases generic

theorem textFont_kind_ne_generic (r : Resources σ) (operands : List Operand) (c : Context)
    (m : σ) : (textFont r operands c m).value.kind ≠ .generic := by
  intro generic
  unfold textFont at generic
  cases name : operands.head?.bind Operand.name? with
  | none =>
    rw [name] at generic
    cases generic
  | some text =>
    cases size : operands[1]?.bind Operand.number? <;> rw [name, size] at generic <;>
      cases generic

theorem perform_kind_eq_generic_iff (r : Resources σ) (name : String) (operands : List Operand)
    (c : Context) (op : Operation) (m : σ) :
    (perform r name operands c op m).value.kind = .generic ↔ op = .unknown := by
  constructor
  · intro generic
    cases op with
    | unknown => rfl
    | extGState => exact absurd generic (extGState_kind_ne_generic r operands c m)
    | textFont => exact absurd generic (textFont_kind_ne_generic r operands c m)
    | shading =>
      simp only [perform, bind_value] at generic
      cases found : (nameOperand operands m).value <;> rw [found] at generic <;> cases generic
    | xobject =>
      simp only [perform, bind_value] at generic
      cases found : (nameOperand operands m).value <;> rw [found] at generic <;> cases generic
    | _ => cases generic
  · rintro rfl
    simp only [perform]
    cases c.compatibilityDepth == 0 <;> rfl

/-- The compatibility sections that are open behind an operator. -/
def sectionsAfter (depth : Nat) (name : String) : Nat :=
  if name = "BX" then depth + 1 else if name = "EX" then depth - 1 else depth

theorem ofName_eq_beginCompatibility_iff {name : String} :
    Operation.ofName name = .beginCompatibility ↔ name = "BX" :=
  Operation.ofName_eq_iff (by decide) (by decide) (by decide)

theorem ofName_eq_endCompatibility_iff {name : String} :
    Operation.ofName name = .endCompatibility ↔ name = "EX" :=
  Operation.ofName_eq_iff (by decide) (by decide) (by decide)

theorem perform_compatibilityDepth (r : Resources σ) (name : String) (operands : List Operand)
    (c : Context) {op : Operation} (start : op ≠ .beginCompatibility)
    (finish : op ≠ .endCompatibility) (m : σ) :
    (perform r name operands c op m).value.context.compatibilityDepth = c.compatibilityDepth := by
  by_cases within : op ∈ beyondStates
  · cases op with
    | beginCompatibility => exact absurd rfl start
    | endCompatibility => exact absurd rfl finish
    | beginImage => rfl
    | imageData => rfl
    | endImage => rfl
    | _ => simp [beyondStates] at within
  · rw [perform_context r name operands c within m]

theorem step_compatibilityDepth (r : Resources σ) (i : Interpreter) (name : String)
    (operands : List Operand) (m : σ) :
    (i.step r name operands m).1.2.context.compatibilityDepth =
      sectionsAfter i.context.compatibilityDepth name := by
  by_cases start : name = "BX"
  · subst start
    rfl
  · by_cases finish : name = "EX"
    · subst finish
      rfl
    · rw [sectionsAfter, if_neg start, if_neg finish]
      exact perform_compatibilityDepth r name operands i.context
        (mt ofName_eq_beginCompatibility_iff.1 start) (mt ofName_eq_endCompatibility_iff.1 finish) m

theorem newWarnings_unsupported (r : Resources σ) (i : Interpreter) (name : String)
    (operands : List Operand) (m : σ) :
    (i.newWarnings r name operands m).filter (·.code == .unsupportedOperator) =
      if Operation.ofName name = .unknown ∧ i.context.compatibilityDepth = 0 then
        [⟨.unsupportedOperator, s!"unknown operator '{name}' passed through",
          some ⟨i.index, name⟩⟩]
      else [] := by
  unfold newWarnings issues
  by_cases unknown : Operation.ofName name = .unknown
  · by_cases outside : i.context.compatibilityDepth = 0
    · rw [if_pos ⟨unknown, outside⟩, unknown]
      simp only [perform, outside]
      rfl
    · rw [if_neg fun both => outside both.2, unknown]
      simp only [perform, beq_false_of_ne outside]
      rfl
  · rw [if_neg fun both => unknown both.1, List.filter_eq_nil_iff]
    intro w mem unsupported
    obtain ⟨issue, noted, rfl⟩ := List.mem_map.1 mem
    have own := notes_perform r name operands i.context (Operation.ofName name) m issue noted
    have code : issue.code = .unsupportedOperator := eq_of_beq unsupported
    rw [code, unsupported_mem_codes_iff] at own
    exact unknown own

end Interpreter

namespace Token

/-- The compatibility sections that are open behind the last token. -/
def openSections (tokens : List Token) : Nat :=
  (operators tokens).foldl Interpreter.sectionsAfter 0

end Token

namespace Operation

def mnemonics : List String := table.map Prod.fst

theorem ofName_eq_unknown_iff {name : String} : ofName name = unknown ↔ name ∉ mnemonics := by
  have known : ∀ entry ∈ table, ofName entry.1 ≠ unknown := by decide +kernel
  constructor
  · intro unlisted mem
    obtain ⟨entry, listed, rfl⟩ := List.mem_map.1 mem
    exact known entry listed unlisted
  · intro unlisted
    by_contra listed
    exact unlisted (List.mem_map_of_mem (mem_table_of_ofName listed))

end Operation

def Warning.isAt (k : Nat) (w : Warning) : Bool := w.site.any (·.index == k)

theorem Warning.isAt_iff {k : Nat} {w : Warning} :
    w.isAt k = true ↔ ∃ site, w.site = some site ∧ site.index = k := by
  simp only [isAt, Option.any_eq_true, beq_iff_eq]

namespace Reading

variable (r : Resources σ)

theorem openSections_ofTokens (collectsWarnings : Bool) (m : σ) (tokens : List Token) :
    (ofTokens r collectsWarnings m tokens).1.interpreter.context.compatibilityDepth =
      Token.openSections tokens :=
  context_ofTokens_names r collectsWarnings m Context.compatibilityDepth Interpreter.sectionsAfter
    (Interpreter.step_compatibilityDepth r) tokens

theorem warnings_foldl (tokens : List Token) (reading : Reading × σ)
    (collects : reading.1.interpreter.collectsWarnings = true) :
    ∃ later, (tokens.foldl (feed r) reading).1.interpreter.warnings.toList =
        reading.1.interpreter.warnings.toList ++ later ∧
      ∀ w ∈ later, ∀ site ∈ w.site, reading.1.interpreter.index ≤ site.index := by
  induction tokens generalizing reading with
  | nil => exact ⟨[], (List.append_nil _).symm, by simp⟩
  | cons token tokens ih =>
    cases token with
    | operand value => exact ih (feed r reading (.operand value)) collects
    | stray text =>
      have skipped : (feed r reading (.stray text)).1.interpreter.collectsWarnings = true ∧
          (feed r reading (.stray text)).1.interpreter.index = reading.1.interpreter.index := by
        simp only [feed, Interpreter.skipStray, collects, if_true, and_self]
      obtain ⟨later, whole, places⟩ := ih _ skipped.1
      rw [skipped.2] at places
      refine ⟨(Token.strayWarning? (.stray text)).toList ++ later, ?_, ?_⟩
      · rw [← List.append_assoc, ← Interpreter.skipStray_warnings collects]
        exact whole
      · intro w mem site at_
        rcases List.mem_append.1 mem with own | mem
        · obtain rfl := List.mem_singleton.1 own
          cases at_
        · exact places w mem site at_
    | operator name =>
      obtain ⟨later, whole, places⟩ := ih (feed r reading (.operator name)) collects
      refine ⟨reading.1.interpreter.newWarnings r name reading.1.operands.toList reading.2 ++ later,
        ?_, ?_⟩
      · rw [← List.append_assoc, ← Interpreter.step_warnings collects]
        exact whole
      · intro w mem site at_
        rcases List.mem_append.1 mem with own | mem
        · obtain rfl := Option.some.inj ((Interpreter.newWarnings_spec own).1.symm.trans at_)
          exact Nat.le_refl _
        · exact Nat.le_of_succ_le (places w mem site at_)

theorem index_ofTokens (m : σ) (tokens : List Token) :
    (ofTokens r true m tokens).1.interpreter.index = (Token.operators tokens).length :=
  (tracked_foldl r tokens m).count.trans (length_nodes_ofTokens r true m tokens)

theorem warnings_at (m : σ) (before : List Token) (name : String) (after : List Token) :
    (ofTokens r true m (before ++ .operator name :: after)).1.interpreter.warnings.toList.filter
        (Warning.isAt (Token.operators before).length) =
      (ofTokens r true m before).1.interpreter.newWarnings r name (Token.waiting before)
        (ofTokens r true m before).2 := by
  have tracked : Tracked before (ofTokens r true m before).1 := tracked_foldl r before m
  have place := index_ofTokens r m before
  obtain ⟨later, whole, places⟩ := warnings_foldl r after
    (feed r (ofTokens r true m before) (.operator name)) tracked.collects
  have earlier : (ofTokens r true m before).1.interpreter.warnings.toList.filter
      (Warning.isAt (Token.operators before).length) = [] := by
    rw [List.filter_eq_nil_iff]
    intro w mem here
    obtain ⟨site, at_, same⟩ := Warning.isAt_iff.1 here
    have lt := (tracked.attributed.sited w mem site at_).2.lt
    rw [length_nodes_ofTokens r true m before, same] at lt
    exact Nat.lt_irrefl _ lt
  have own : ∀ w ∈ (ofTokens r true m before).1.interpreter.newWarnings r name
      (Token.waiting before) (ofTokens r true m before).2,
      w.isAt (Token.operators before).length = true :=
    fun w mem => Warning.isAt_iff.2 ⟨_, (Interpreter.newWarnings_spec mem).1, place⟩
  have rest : later.filter (Warning.isAt (Token.operators before).length) = [] := by
    rw [List.filter_eq_nil_iff]
    intro w mem here
    obtain ⟨site, at_, same⟩ := Warning.isAt_iff.1 here
    have lt : (ofTokens r true m before).1.interpreter.index < site.index :=
      places w mem site at_
    rw [place, same] at lt
    exact Nat.lt_irrefl _ lt
  rw [ofTokens_append, List.foldl_cons, whole, feed, Interpreter.step_warnings tracked.collects,
    operands_ofTokens, List.filter_append, List.filter_append, earlier, rest,
    List.filter_eq_self.2 own, List.nil_append, List.append_nil]

end Reading

namespace Model

/-- A stream whose warnings are collected warns of an unknown operator at its place, once, if no
compatibility section is open there, and of no other operator so. Unknown operators, and only these,
give generic nodes; their operands stay what they are. -/
theorem ofTokens_unknown (r : Resources σ) (m : σ) (before : List Token) (name : String)
    (after : List Token) :
    ((ofTokens r true (before ++ .operator name :: after) m).1.warnings.filter fun w =>
        w.code == .unsupportedOperator && w.isAt (Token.operators before).length) =
      (if name ∉ Operation.mnemonics ∧ Token.openSections before = 0 then
        [⟨.unsupportedOperator, s!"unknown operator '{name}' passed through",
          some ⟨(Token.operators before).length, name⟩⟩]
      else []) ∧
    ∃ n, (ofTokens r true (before ++ .operator name :: after) m).1.nodes[
        (Token.operators before).length]? = some n ∧ n.name = name ∧
      n.operands = Token.waiting before ∧ (n.kind = .generic ↔ name ∉ Operation.mnemonics) := by
  constructor
  · have here := Reading.warnings_at r m before name after
    have own := Interpreter.newWarnings_unsupported r
      (Reading.ofTokens r true m before).1.interpreter name (Token.waiting before)
      (Reading.ofTokens r true m before).2
    rw [← here, List.filter_filter, Reading.index_ofTokens, Reading.openSections_ofTokens] at own
    simp only [← Operation.ofName_eq_unknown_iff]
    exact own
  · refine ⟨_, Reading.getElem?_nodes_ofTokens r true m before name after, rfl, rfl, ?_⟩
    rw [← Operation.ofName_eq_unknown_iff]
    exact Interpreter.perform_kind_eq_generic_iff r name _ _ _ _

end Model

end PdfContent
