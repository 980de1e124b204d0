import PdfContent.Proofs.SavedStates

/-!
What one operator does to the graphics states and to the memory behind the resources. `q` and `Q`
move states between the live one and the saved ones. Every other operator changes the live state
alone, in one of a few ways, and those that depend on a lookup say what was found in which memory.
So what every such change keeps holds of the live state and of all saved ones, however an
interpreter got there.
-/

namespace PdfContent

variable {σ α : Type}

namespace Resources

inductive Leads (r : Resources σ) (m₀ : σ) : σ → Prop
  | refl : Leads r m₀ m₀
  | colorSpace (name : String) {m : σ} (h : Leads r m₀ m) : Leads r m₀ (r.colorSpace name m).2
  | font (name : String) {m : σ} (h : Leads r m₀ m) : Leads r m₀ (r.font name m).2
  | pattern (name : String) {m : σ} (h : Leads r m₀ m) : Leads r m₀ (r.pattern name m).2
  | shading (name : String) {m : σ} (h : Leads r m₀ m) : Leads r m₀ (r.shading name m).2
  | xobject (name : String) {m : σ} (h : Leads r m₀ m) : Leads r m₀ (r.xobject name m).2
  | extGState (name : String) {m : σ} (h : Leads r m₀ m) : Leads r m₀ (r.extGState name m).2
  | defaultColorSpace (family : DeviceFamily) {m : σ} (h : Leads r m₀ m) :
      Leads r m₀ (r.defaultColorSpace family m).2

theorem leads_keeps (r : Resources σ) (m₀ : σ) : r.Keeps (r.Leads m₀) where
  colorSpace name _ h := .colorSpace name h
  font name _ h := .font name h
  pattern name _ h := .pattern name h
  shading name _ h := .shading name h
  extGState name _ h := .extGState name h
  defaultColorSpace family _ h := .defaultColorSpace family h

end Resources

/-- The ways in which an operator other than `q` and `Q` changes the live state. -/
inductive LiveChange (r : Resources σ) (m : σ) (gs : GraphicsState) : GraphicsState → Prop
  | none : LiveChange r m gs gs
  | colorSpace (side : Side) (space : ColorSpace) :
      LiveChange r m gs (gs.selectColorSpace side space)
  | pattern (side : Side) (pattern : Option Pattern)
      (under : (gs.paint side).colorSpace.isPattern = true) :
      LiveChange r m gs (gs.selectPattern side pattern)
  | font (selection : FontSelection) : LiveChange r m gs (gs.selectFont selection)
  | renderingMode (mode : RenderingMode) : LiveChange r m gs { gs with renderingMode := mode }
  | extGState {name : String} {ext : ExtGState}
      (found : (r.extGState name m).1.value? = some ext) : LiveChange r m gs (gs.overlay ext)
  | noXObject : LiveChange r m gs { gs with xobject := Option.none }
  | xobject {name : String} {x : XObject} (found : (r.xobject name m).1.value? = some x) :
      LiveChange r m gs { gs with xobject := some x }

namespace Interpreter

open Resolving

variable {r : Resources σ}

theorem selectPattern_liveChange (r : Resources σ) (side : Side) (operands : List Operand)
    (gs : GraphicsState) (m : σ) :
    LiveChange r m gs (selectPattern r side operands gs m).value := by
  unfold selectPattern
  cases under : (gs.paint side).colorSpace.isPattern with
  | false => exact .none
  | true =>
    cases operands.getLast?.bind Operand.name? with
    | none => exact .none
    | some name => exact .pattern side _ under

theorem textFont_liveChange (r : Resources σ) (operands : List Operand) (c : Context) (m : σ) :
    LiveChange r m c.live (textFont r operands c m).value.context.live := by
  unfold textFont
  cases operands.head?.bind Operand.name? with
  | none => exact .none
  | some name =>
    cases operands[1]?.bind Operand.number? with
    | none => exact .none
    | some size => exact .font ⟨name, size⟩

theorem extGState_liveChange (r : Resources σ) (operands : List Operand) (c : Context) (m : σ) :
    LiveChange r m c.live (extGState r operands c m).value.context.live := by
  have live := congrArg StateStack.live (extGState_stack r operands c m)
  change LiveChange r m c.live (extGState r operands c m).value.context.stack.live
  rw [live]
  cases operands.head?.bind Operand.name? with
  | none => exact .none
  | some name =>
    rw [Option.bind_some]
    cases found : (r.extGState name m).1.value? with
    | none => exact .none
    | some ext => exact .extGState found

theorem perform_xobject_liveChange (r : Resources σ) (name : String) (operands : List Operand)
    (c : Context) (m : σ) :
    LiveChange r m c.live (perform r name operands c .xobject m).value.context.live := by
  simp only [perform, bind_value, nameOperand_value, nameOperand_memory]
  cases operands.head?.bind Operand.name? with
  | none => exact .noXObject
  | some painted =>
    change LiveChange r m c.live
      { c.live with xobject := (lookup "XObject" r.xobject painted m).value }
    rw [lookup_value]
    cases found : (r.xobject painted m).1.value? with
    | none => exact .noXObject
    | some x => exact .xobject found

theorem perform_liveChange (r : Resources σ) (name : String) (operands : List Operand) (c : Context)
    {op : Operation} (save : op ≠ .save) (restore : op ≠ .restore) (m : σ) :
    LiveChange r m c.live (perform r name operands c op m).value.context.live := by
  cases op with
  | save => exact absurd rfl save
  | restore => exact absurd rfl restore
  | extGState => exact extGState_liveChange r operands c m
  | deviceColor side family => exact .colorSpace side _
  | colorSpace side => exact .colorSpace side _
  | colorOrPattern side => exact selectPattern_liveChange r side operands c.live m
  | renderingMode => exact .renderingMode _
  | textFont => exact textFont_liveChange r operands c m
  | shading =>
    simp only [perform, bind_value, nameOperand_value]
    cases operands.head?.bind Operand.name? <;> exact .none
  | xobject => exact perform_xobject_liveChange r name operands c m
  | unknown =>
    rw [perform_unknown_context]
    exact .none
  | _ => exact .none

theorem step_stack (r : Resources σ) (i : Interpreter) (name : String) (operands : List Operand)
    (m : σ) :
    (i.step r name operands m).1.2.context.stack = i.context.stack.save ∨
      (i.step r name operands m).1.2.context.stack = i.context.stack.restore ∨
      LiveChange r m i.state (i.step r name operands m).1.2.state ∧
        (i.step r name operands m).1.2.context.stack.saved = i.context.stack.saved := by
  by_cases save : Operation.ofName name = .save
  · left
    simp only [step, save]
    rfl
  · by_cases restore : Operation.ofName name = .restore
    · right; left
      simp only [step, restore]
      rfl
    · right; right
      exact ⟨perform_liveChange r name operands i.context save restore m,
        perform_saved r name operands i.context save restore m⟩

end Interpreter

structure StateStack.All (P : GraphicsState → Prop) (s : StateStack) : Prop where
  live : P s.live
  saved : ∀ gs ∈ s.saved, P gs

namespace StateStack.All

variable {P : GraphicsState → Prop} {s : StateStack}

theorem start (h : P {}) : All P {} := ⟨h, by simp⟩

theorem save (h : s.All P) : s.save.All P :=
  ⟨h.live, List.forall_mem_cons.2 ⟨h.live, h.saved⟩⟩

theorem restore (h : s.All P) : s.restore.All P := by
  unfold StateStack.restore
  cases hs : s.saved with
  | nil => exact h
  | cons top rest =>
    have hall := h.saved
    rw [hs, List.forall_mem_cons] at hall
    exact ⟨hall.1, hall.2⟩

end StateStack.All

namespace Interpreter

variable {r : Resources σ} {P : GraphicsState → Prop}

theorem step_all {i : Interpreter} {m : σ} (h : i.context.stack.All P)
    (keeps : ∀ gs gs', LiveChange r m gs gs' → P gs → P gs') (name : String)
    (operands : List Operand) : (i.step r name operands m).1.2.context.stack.All P := by
  rcases step_stack r i name operands m with save | restore | ⟨change, saved⟩
  · rw [save]
    exact h.save
  · rw [restore]
    exact h.restore
  · exact ⟨keeps _ _ change h.live, fun gs hg => h.saved gs (saved ▸ hg)⟩

theorem eq_of_mem_step_state {i : Interpreter} {m : σ} {name : String} {operands : List Operand}
    {s : GraphicsState} (h : s ∈ (i.step r name operands m).1.1.state) :
    s = (i.step r name operands m).1.2.state := by
  rw [step_state] at h
  split at h
  · exact (Option.some.inj h).symm
  · cases h

/-- An interpreter amid some stream: operators are read over resources that may differ from one to
the next, stray tokens are skipped and warnings taken. -/
inductive Reachable : Interpreter → Prop
  | start (collectsWarnings : Bool) : Reachable { collectsWarnings }
  | step {σ : Type} {i : Interpreter} (h : Reachable i) (r : Resources σ) (name : String)
      (operands : List Operand) (m : σ) : Reachable (i.step r name operands m).1.2
  | skipStray {i : Interpreter} (h : Reachable i) (text : String) : Reachable (i.skipStray text)
  | takeWarnings {i : Interpreter} (h : Reachable i) : Reachable i.takeWarnings.2

theorem Reachable.stack_all {i : Interpreter} (h : i.Reachable) (start : P {})
    (keeps : ∀ {σ : Type} (r : Resources σ) m gs gs', LiveChange r m gs gs' → P gs → P gs') :
    i.context.stack.All P := by
  induction h with
  | start => exact .start start
  | step _ r name operands m ih => exact step_all ih (keeps r m) name operands
  | skipStray _ text ih =>
    rw [Reading.skipStray_context]
    exact ih
  | takeWarnings _ ih => exact ih

theorem Reachable.run {i : Interpreter} (h : i.Reachable) (r : Resources σ) (m : σ)
    (commands : List Command) : (run r (i, m) commands).1.Reachable := by
  induction commands generalizing i m with
  | nil => exact h
  | cons c commands ih => exact ih (h.step r c.name c.operands m) _

theorem step_leads {m₀ : σ} (i : Interpreter) (name : String) (operands : List Operand) {m : σ}
    (h : r.Leads m₀ m) : r.Leads m₀ (i.step r name operands m).2 := by
  cases hn : (i.step r name operands m).1.1.paintedName? with
  | none => exact step_keeps (r.leads_keeps m₀) i hn h
  | some found =>
    rw [step_memory_of_painted r i hn]
    exact .xobject found h

end Interpreter

end PdfContent
