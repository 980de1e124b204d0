import PdfContent.Proofs.LostResources
import PdfContent.Proofs.PatternSpaces

/-!
The parts of the graphics state and the operators that they belong to. An operator other than `Q`
leaves all parts alone but its own, however its operands and lookups come out; `Q` puts back what
was saved as a whole. So nothing but `q` and `Q` reaches the saved states, and an operator without
parts of its own leaves the live state as it was.
-/

namespace PdfContent

inductive StatePart
  | colorSpace (side : Side)
  | pattern (side : Side)
  | alpha (side : Side)
  | renderingMode
  | fontName
  | fontSize
  | blendMode
  | softMask
  | xobject
  deriving DecidableEq

def StatePart.Same (gs gs' : GraphicsState) : StatePart → Prop
  | colorSpace side => (gs.paint side).colorSpace = (gs'.paint side).colorSpace
  | pattern side => (gs.paint side).pattern = (gs'.paint side).pattern
  | alpha side => (gs.paint side).alpha = (gs'.paint side).alpha
  | renderingMode => gs.renderingMode = gs'.renderingMode
  | fontName => gs.fontName = gs'.fontName
  | fontSize => gs.fontSize = gs'.fontSize
  | blendMode => gs.blendMode = gs'.blendMode
  | softMask => gs.softMask = gs'.softMask
  | xobject => gs.xobject = gs'.xobject

namespace StatePart

variable {gs gs' : GraphicsState} {part : StatePart} {side : Side}

theorem same_refl (gs : GraphicsState) (part : StatePart) : part.Same gs gs := by
  cases part <;> rfl

theorem paint_eq_of_same {p q : Paint} (space : p.colorSpace = q.colorSpace)
    (pattern : p.pattern = q.pattern) (alpha : p.alpha = q.alpha) : p = q := by
  cases p
  cases q
  rw [Paint.mk.injEq]
  exact ⟨space, pattern, alpha⟩

theorem eq_of_same (h : ∀ part : StatePart, part.Same gs gs') : gs = gs' := by
  have paint (side : Side) : gs.paint side = gs'.paint side :=
    paint_eq_of_same (h (colorSpace side)) (h (pattern side)) (h (alpha side))
  have fill : gs.fill = gs'.fill := paint .fill
  have stroke : gs.stroke = gs'.stroke := paint .stroke
  cases gs
  cases gs'
  rw [GraphicsState.mk.injEq]
  exact ⟨fill, stroke, h renderingMode, h fontName, h fontSize, h blendMode, h softMask,
    h xobject⟩

theorem view_setPaint {α : Type} (view : Paint → α) {p : Paint} {other : Side}
    (own : side = other → view (gs.paint side) = view p) :
    view (gs.paint other) = view ((gs.setPaint side p).paint other) := by
  rw [GraphicsState.paint_setPaint]
  by_cases same : side = other
  · rw [if_pos same, ← own same, same]
  · rw [if_neg same]

theorem same_setPaint {p : Paint}
    (ownSpace : part = colorSpace side → (gs.paint side).colorSpace = p.colorSpace)
    (ownPattern : part = pattern side → (gs.paint side).pattern = p.pattern)
    (ownAlpha : part = alpha side → (gs.paint side).alpha = p.alpha) :
    part.Same gs (gs.setPaint side p) := by
  cases part with
  | colorSpace other => exact view_setPaint Paint.colorSpace fun same => ownSpace (same ▸ rfl)
  | pattern other => exact view_setPaint Paint.pattern fun same => ownPattern (same ▸ rfl)
  | alpha other => exact view_setPaint Paint.alpha fun same => ownAlpha (same ▸ rfl)
  | _ => cases side <;> rfl

def spaceParts (side : Side) : List StatePart := [colorSpace side, pattern side]

def fontParts : List StatePart := [fontName, fontSize]

def extGStateParts : List StatePart :=
  fontParts ++ [blendMode, softMask, alpha .fill, alpha .stroke]

/-- What an operator may change, by its name. -/
def table : List (String × List StatePart) :=
  [("g", spaceParts .fill), ("rg", spaceParts .fill), ("k", spaceParts .fill),
   ("cs", spaceParts .fill), ("G", spaceParts .stroke), ("RG", spaceParts .stroke),
   ("K", spaceParts .stroke), ("CS", spaceParts .stroke), ("scn", [pattern .fill]),
   ("SCN", [pattern .stroke]), ("Tr", [renderingMode]), ("Tf", fontParts),
   ("gs", extGStateParts), ("Do", [xobject])]

def ofOperator (name : String) : List StatePart := (table.lookup name).getD []

def ofOperation : Operation → List StatePart
  | .deviceColor side _ => spaceParts side
  | .colorSpace side => spaceParts side
  | .colorOrPattern side => [pattern side]
  | .renderingMode => [renderingMode]
  | .textFont => fontParts
  | .extGState => extGStateParts
  | .xobject => [xobject]
  | _ => []

theorem ofOperator_eq (name : String) : ofOperator name = ofOperation (Operation.ofName name) := by
  have listed : ∀ entry ∈ Operation.table, ofOperator entry.1 = ofOperation entry.2 := by
    decide +kernel
  have known : ∀ entry ∈ table, Operation.ofName entry.1 ≠ .unknown := by decide +kernel
  by_cases unknown : Operation.ofName name = .unknown
  · have none : table.lookup name = none := by
      rw [Option.eq_none_iff_forall_not_mem]
      intro parts found
      obtain ⟨front, rest, split, -⟩ := List.lookup_eq_some_iff.1 found
      exact known (name, parts) (by simp [split]) unknown
    rw [ofOperator, none, unknown]
    rfl
  · exact listed _ (Operation.mem_table_of_ofName unknown)

theorem same_selectColorSpace (space : ColorSpace) (other : part ∉ spaceParts side) :
    part.Same gs (gs.selectColorSpace side space) := by
  have apart (own : StatePart) (mem : own ∈ spaceParts side) : part ≠ own :=
    fun same => other (same ▸ mem)
  exact same_setPaint (fun own => absurd own (apart _ (by simp [spaceParts])))
    (fun own => absurd own (apart _ (by simp [spaceParts]))) fun _ => rfl

theorem same_selectPattern (p : Option Pattern) (other : part ∉ [pattern side]) :
    part.Same gs (gs.selectPattern side p) :=
  same_setPaint (fun _ => rfl) (fun own => absurd (List.mem_singleton.2 own) other) fun _ => rfl

theorem same_selectFont (selection : FontSelection) (other : part ∉ fontParts) :
    part.Same gs (gs.selectFont selection) := by
  cases part with
  | fontName => exact absurd (by decide) other
  | fontSize => exact absurd (by decide) other
  | _ => rfl

theorem same_overlay (ext : ExtGState) (other : part ∉ extGStateParts) :
    part.Same gs (gs.overlay ext) := by
  cases part with
  | colorSpace side => exact (gs.overlay_colorSpace ext side).symm
  | pattern side => exact (gs.overlay_pattern ext side).symm
  | alpha side => cases side <;> exact absurd (by decide) other
  | renderingMode =>
    rw [Same, GraphicsState.overlay, GraphicsState.overlayFont]
    cases ext.font <;> rfl
  | xobject =>
    rw [Same, GraphicsState.overlay, GraphicsState.overlayFont]
    cases ext.font <;> rfl
  | _ => exact absurd (by decide) other

end StatePart

namespace StateStack

theorem saved_restore (s : StateStack) : s.restore.saved = s.saved.tail := by
  cases h : s.saved <;> simp [restore, h]

theorem live_restore (s : StateStack) : s.restore.live = s.saved.headD s.live := by
  cases h : s.saved <;> simp [restore, h]

end StateStack

namespace Interpreter

open Resolving StatePart

variable {σ : Type}

theorem selectPattern_same (r : Resources σ) {side : Side} (operands : List Operand)
    (gs : GraphicsState) {part : StatePart} (other : part ∉ [pattern side]) (m : σ) :
    part.Same gs (selectPattern r side operands gs m).value := by
  unfold selectPattern
  by_cases under : (gs.paint side).colorSpace.isPattern = true
  · rw [if_pos under]
    cases operands.getLast?.bind Operand.name? with
    | none => exact same_refl gs part
    | some name => exact same_selectPattern _ other
  · rw [if_neg under]
    exact same_refl gs part

theorem selectPattern_nameless (r : Resources σ) (side : Side) {operands : List Operand}
    (nameless : operands.getLast?.bind Operand.name? = none) (gs : GraphicsState) (m : σ) :
    (selectPattern r side operands gs m).value = gs := by
  unfold selectPattern
  by_cases under : (gs.paint side).colorSpace.isPattern = true
  · rw [if_pos under, nameless]
    rfl
  · rw [if_neg under]
    rfl

def namedFont? (operands : List Operand) : Option FontSelection :=
  (operands.head?.bind Operand.name?).bind fun name =>
    (operands[1]?.bind Operand.number?).map fun size => ⟨name, size⟩

theorem textFont_live (r : Resources σ) (operands : List Operand) (c : Context) (m : σ) :
    (textFont r operands c m).value.context.live =
      match namedFont? operands with
      | some selection => c.live.selectFont selection
      | none => c.live := by
  unfold textFont namedFont?
  cases operands.head?.bind Operand.name? with
  | none => rfl
  | some name => cases operands[1]?.bind Operand.number? <;> rfl

theorem perform_same (r : Resources σ) (name : String) (operands : List Operand) (c : Context)
    {op : Operation} (restore : op ≠ .restore) {part : StatePart}
    (other : part ∉ ofOperation op) (m : σ) :
    part.Same c.live (perform r name operands c op m).value.context.live := by
  cases op with
  | restore => exact absurd rfl restore
  | extGState =>
    have live := congrArg StateStack.live (extGState_stack r operands c m)
    change part.Same c.live (extGState r operands c m).value.context.stack.live
    rw [live]
    split
    · exact same_overlay _ other
    · exact same_refl c.live part
  | deviceColor side family => exact same_selectColorSpace _ other
  | colorSpace side => exact same_selectColorSpace _ other
  | colorOrPattern side =>
    exact selectPattern_same r operands c.live other m
  | renderingMode =>
    cases part with
    | renderingMode => exact absurd (by decide) other
    | _ => rfl
  | textFont =>
    change part.Same c.live (textFont r operands c m).value.context.live
    rw [textFont_live]
    split
    · exact same_selectFont _ other
    · exact same_refl c.live part
  | shading =>
    simp only [perform, bind_value, nameOperand_value]
    cases operands.head?.bind Operand.name? <;> exact same_refl c.live part
  | xobject =>
    have changed (x : Option XObject) : part.Same c.live { c.live with xobject := x } := by
      cases part with
      | xobject => exact absurd (by decide) other
      | _ => rfl
    simp only [perform, bind_value, nameOperand_value]
    cases operands.head?.bind Operand.name? <;> exact changed _
  | unknown =>
    rw [perform_unknown_context]
    exact same_refl c.live part
  | _ => exact same_refl c.live part

/-- The operations that reach beyond the graphics states. -/
def beyondStates : List Operation :=
  [.beginImage, .imageData, .endImage, .beginCompatibility, .endCompatibility]

theorem extGState_context (r : Resources σ) (operands : List Operand) (c : Context) (m : σ) :
    (extGState r operands c m).value.context =
      { c with stack := (extGState r operands c m).value.context.stack } := by
  simp only [extGState, bind_value]
  cases (nameOperand operands m).value with
  | none => rfl
  | some name =>
    simp only [bind_value]
    cases (lookup "ExtGState" r.extGState name _).value <;> rfl

theorem textFont_context (r : Resources σ) (operands : List Operand) (c : Context) (m : σ) :
    (textFont r operands c m).value.context =
      { c with stack := (textFont r operands c m).value.context.stack } := by
  unfold textFont
  cases operands.head?.bind Operand.name? with
  | none => rfl
  | some name => cases operands[1]?.bind Operand.number? <;> rfl

theorem perform_context (r : Resources σ) (name : String) (operands : List Operand) (c : Context)
    {op : Operation} (within : op ∉ beyondStates) (m : σ) :
    (perform r name operands c op m).value.context =
      { c with stack := (perform r name operands c op m).value.context.stack } := by
  cases op with
  | beginImage => exact absurd (by decide) within
  | imageData => exact absurd (by decide) within
  | endImage => exact absurd (by decide) within
  | beginCompatibility => exact absurd (by decide) within
  | endCompatibility => exact absurd (by decide) within
  | extGState => exact extGState_context r operands c m
  | textFont => exact textFont_context r operands c m
  | shading =>
    simp only [perform, bind_value]
    cases (nameOperand operands m).value <;> rfl
  | xobject =>
    simp only [perform, bind_value]
    cases (nameOperand operands m).value <;> rfl
  | unknown => rw [perform_unknown_context]
  | _ => rfl

theorem step_same (r : Resources σ) (i : Interpreter) {name : String} (restore : name ≠ "Q")
    (operands : List Operand) {part : StatePart} (other : part ∉ ofOperator name) (m : σ) :
    part.Same i.state (i.step r name operands m).1.2.state := by
  rw [ofOperator_eq] at other
  have kept : Operation.ofName name ≠ .restore := mt Operation.ofName_eq_restore_iff.1 restore
  exact perform_same r name operands i.context kept other m

theorem step_restore (r : Resources σ) (i : Interpreter) (operands : List Operand) (m : σ) :
    (i.step r "Q" operands m).1.2.context.stack = i.context.stack.restore :=
  runCommand_restore (c := ⟨"Q", operands⟩) rfl (i, m)

theorem step_saved (r : Resources σ) (i : Interpreter) (name : String) (operands : List Operand)
    (m : σ) :
    (i.step r name operands m).1.2.context.stack.saved =
      if name = "q" then i.state :: i.context.stack.saved
      else if name = "Q" then i.context.stack.saved.tail
      else i.context.stack.saved := by
  by_cases save : name = "q"
  · rw [if_pos save]
    exact congrArg StateStack.saved (runCommand_save (c := ⟨name, operands⟩) save (i, m))
  · rw [if_neg save]
    by_cases restore : name = "Q"
    · rw [if_pos restore, restore, step_restore, StateStack.saved_restore]
    · rw [if_neg restore]
      exact runCommand_saved (c := ⟨name, operands⟩) save restore (i, m)

/-- What an operator lacks when it leaves the live state alone in spite of its parts: a parameter
dictionary, a font with its size, a name for the pattern. -/
inductive Idle (r : Resources σ) (operands : List Operand) (m : σ) : String → Prop
  | extGState (none : ((operands.head?.bind Operand.name?).bind fun name =>
      (r.extGState name m).1.value?) = none) : Idle r operands m "gs"
  | font (none : namedFont? operands = none) : Idle r operands m "Tf"
  | pattern (side : Side) (none : operands.getLast?.bind Operand.name? = none) :
      Idle r operands m side.patternOperator

theorem step_idle {r : Resources σ} {operands : List Operand} {m : σ} {name : String}
    (idle : Idle r operands m name) (i : Interpreter) :
    (i.step r name operands m).1.2.state = i.state := by
  cases idle with
  | extGState none =>
    have stack := extGState_stack r operands i.context m
    rw [none] at stack
    exact congrArg StateStack.live stack
  | font none =>
    have live := textFont_live r operands i.context m
    rw [none] at live
    exact live
  | pattern side none =>
    have op := Operation.ofName_patternOperator side
    simp only [step, op]
    exact selectPattern_nameless r side none i.state m

/-- An operator other than `Q` changes no part of the live state but its own; one that has none, or
lacks what it names, changes nothing. `Q` puts the last saved state in its place if there is one.
Only `q` adds a saved state, the live one as it is, and only `Q` takes one away. -/
theorem step_frame (r : Resources σ) (i : Interpreter) (name : String) (operands : List Operand)
    (m : σ) :
    (name ≠ "Q" → ∀ part, part ∉ ofOperator name →
      part.Same i.state (i.step r name operands m).1.2.state) ∧
    (name ≠ "Q" → ofOperator name = [] → (i.step r name operands m).1.2.state = i.state) ∧
    (Idle r operands m name → (i.step r name operands m).1.2.state = i.state) ∧
    (name = "Q" → (i.step r name operands m).1.2.state = i.context.stack.saved.headD i.state) ∧
    (i.step r name operands m).1.2.context.stack.saved =
      if name = "q" then i.state :: i.context.stack.saved
      else if name = "Q" then i.context.stack.saved.tail
      else i.context.stack.saved := by
  refine ⟨?_, ?_, ?_, ?_, step_saved r i name operands m⟩
  · intro restore part other
    exact step_same r i restore operands other m
  · intro restore empty
    apply Eq.symm
    apply eq_of_same
    intro part
    exact step_same r i restore operands (by simp [empty]) m
  · intro idle
    exact step_idle idle i
  · rintro rfl
    exact (congrArg StateStack.live (step_restore r i operands m)).trans
      (StateStack.live_restore i.context.stack)

theorem step_frame_namelessPattern :
    "SCN" ≠ "Q" ∧ alpha .stroke ∉ ofOperator "SCN" ∧
      Idle Resources.empty [.integer 1] () "SCN" ∧
      (alpha .stroke).Same midStream.state
        (midStream.step Resources.empty "SCN" [.integer 1] ()).1.2.state ∧
      (midStream.step Resources.empty "SCN" [.integer 1] ()).1.2.state = midStream.state ∧
      "Q" = "Q" ∧
      (midStream.step Resources.empty "Q" [] ()).1.2.state = { fontSize := 12.0 } ∧
      ofOperator "EI" = [] ∧
      (midStream.step Resources.empty "EI" [] ()).1.2.state = midStream.state := by
  have ne : "SCN" ≠ "Q" := by decide
  have other : alpha .stroke ∉ ofOperator "SCN" := by decide
  have idle : Idle Resources.empty [.integer 1] () "SCN" := .pattern .stroke rfl
  have empty : ofOperator "EI" = [] := by decide
  obtain ⟨same, -, unchanged, -⟩ := step_frame Resources.empty midStream "SCN" [.integer 1] ()
  obtain ⟨-, -, -, restored, -⟩ := step_frame Resources.empty midStream "Q" [] ()
  obtain ⟨-, kept, -⟩ := step_frame Resources.empty midStream "EI" [] ()
  exact ⟨ne, other, idle, same ne _ other, unchanged idle, rfl, restored rfl, empty,
    kept (by decide) empty⟩

end Interpreter

end PdfContent
