import PdfContent.Proofs.Flag
import PdfContent.Proofs.Lookups

/-!
The ink of a graphics state: the part that decides whether painting is transparent, the painted
external object left aside, and the selected font. Ink is set by `gs`, `Tr`, `Tf`, `q` and `Q`
alone, so two runs of a stream over resources with the same parameter dictionaries go through the
same ink, whatever else their lookups find.
-/

namespace PdfContent

namespace GraphicsState

def ink (gs : GraphicsState) : GraphicsState where
  fill := { alpha := gs.fill.alpha }
  stroke := { alpha := gs.stroke.alpha }
  renderingMode := gs.renderingMode
  fontName := gs.fontName
  fontSize := gs.fontSize
  blendMode := gs.blendMode
  softMask := gs.softMask

theorem ink_selectColorSpace (gs : GraphicsState) (side : Side) (space : ColorSpace) :
    (gs.selectColorSpace side space).ink = gs.ink := by
  cases side <;> rfl

theorem ink_selectPattern (gs : GraphicsState) (side : Side) (pattern : Option Pattern) :
    (gs.selectPattern side pattern).ink = gs.ink := by
  cases side <;> rfl

theorem ink_overlayFont (gs : GraphicsState) (ext : ExtGState) :
    (gs.overlayFont ext).ink = gs.ink.overlayFont ext := by
  unfold overlayFont
  split <;> rfl

theorem ink_overlay (gs : GraphicsState) (ext : ExtGState) :
    (gs.overlay ext).ink = gs.ink.overlay ext := by
  rw [overlay, overlay, ← ink_overlayFont gs ext]
  rfl

end GraphicsState

namespace TransparencyPolicy

theorem holds_eq (policy : TransparencyPolicy) (gs : GraphicsState) :
    policy.holds gs =
      (policy.holds gs.ink || (policy == fillXObject && gs.xobject.any XObject.isTransparent)) := by
  cases policy with
  | fillXObject =>
    change (_ || _) = ((_ || false) || (true && _))
    rw [Bool.or_false, Bool.true_and]
    rfl
  | _ => exact (Bool.or_false _).symm

theorem eq_fillXObject_iff {name : String} {mode : RenderingMode} {policy : TransparencyPolicy}
    (h : ofOperator? name mode = some policy) : policy = fillXObject ↔ name = "Do" := by
  constructor
  · rintro rfl
    have hm : (name, Operation.ofName name) ∈ Operation.table := by
      apply Operation.mem_table_of_ofName
      intro hu
      rw [ofOperator?, hu] at h
      cases h
    have hall : ∀ entry ∈ Operation.table,
        entry.2.policy? mode = some fillXObject → entry.1 = "Do" := by
      cases mode <;> decide
    exact hall _ hm h
  · rintro rfl
    rw [ofOperator?, Operation.ofName_eq_xobject_iff.2 rfl] at h
    exact (Option.some.inj h).symm

end TransparencyPolicy

namespace Node

def ink (n : Node) : Node where
  index := 0
  name := n.name
  operands := n.operands
  kind := .generic
  state := n.state.map GraphicsState.ink

theorem ink_paintedName? (n : Node) : n.ink.paintedName? = n.paintedName? := rfl

theorem isTransparent_eq (n : Node) :
    n.isTransparent = (n.ink.isTransparent || n.painted?.any XObject.isTransparent) := by
  cases hs : n.state with
  | none => simp [isTransparent, painted?, ink, hs]
  | some s =>
    simp only [isTransparent, painted?, ink, hs, Option.any_some, Option.map_some, Option.bind_some]
    change _ = ((TransparencyPolicy.ofOperator? n.name s.renderingMode).any _ || _)
    by_cases hn : n.name = "Do"
    · have ho : TransparencyPolicy.ofOperator? n.name s.renderingMode = some .fillXObject := by
        rw [TransparencyPolicy.ofOperator?, Operation.ofName_eq_xobject_iff.2 hn]
        rfl
      rw [ho, if_pos hn]
      simp only [Option.any_some]
      exact TransparencyPolicy.holds_eq _ s
    · rw [if_neg hn]
      cases hp : TransparencyPolicy.ofOperator? n.name s.renderingMode with
      | none => rfl
      | some policy =>
        have hx := mt (TransparencyPolicy.eq_fillXObject_iff hp).1 hn
        simp only [Option.any_some, Option.any_none, Bool.or_false]
        rw [TransparencyPolicy.holds_eq policy s, beq_false_of_ne hx, Bool.false_and, Bool.or_false]

end Node

namespace StateStack

def ink (s : StateStack) : StateStack where
  live := s.live.ink
  saved := s.saved.map GraphicsState.ink

theorem ink_save (s : StateStack) : s.save.ink = s.ink.save := rfl

theorem ink_restore (s : StateStack) : s.restore.ink = s.ink.restore := by
  cases h : s.saved <;> simp [restore, ink, h]

theorem ink_live {s s' : StateStack} (h : s.ink = s'.ink) : s.live.ink = s'.live.ink :=
  congrArg live h

theorem ink_mapLive {f g : GraphicsState → GraphicsState} {s s' : StateStack}
    (h : s.ink = s'.ink) (hl : (f s.live).ink = (g s'.live).ink) :
    (s.mapLive f).ink = (s'.mapLive g).ink := by
  have hs : s.saved.map GraphicsState.ink = s'.saved.map GraphicsState.ink := congrArg saved h
  simp only [mapLive, ink, hl, hs]

end StateStack

namespace Interpreter

open Resolving

variable {σ τ : Type}

def SameExtGStates (r : Resources σ) (r' : Resources τ) : Prop :=
  ∀ name m m', (r.extGState name m).1 = (r'.extGState name m').1

theorem renderingMode_value (operands : List Operand) (m : σ) :
    (renderingMode operands m).value =
      ((operands.head?.bind Operand.integer?).bind RenderingMode.ofInt?).getD .fill := by
  unfold renderingMode
  cases (operands.head?.bind Operand.integer?).bind RenderingMode.ofInt? <;> rfl

theorem selectPattern_ink (r : Resources σ) (side : Side) (operands : List Operand)
    (gs : GraphicsState) (m : σ) : (selectPattern r side operands gs m).value.ink = gs.ink := by
  unfold selectPattern
  cases (gs.paint side).colorSpace.isPattern with
  | false => rfl
  | true =>
    cases operands.getLast?.bind Operand.name? with
    | none => rfl
    | some name => exact GraphicsState.ink_selectPattern gs side _

def fontSelection? (operands : List Operand) : Option FontSelection :=
  (operands.head?.bind Operand.name?).bind fun name =>
    (operands[1]?.bind Operand.number?).map fun size => ⟨name, size⟩

theorem textFont_stack (r : Resources σ) (operands : List Operand) (c : Context) (m : σ) :
    (textFont r operands c m).value.context.stack =
      (fontSelection? operands).elim c.stack fun font => c.stack.mapLive (·.selectFont font) := by
  unfold textFont fontSelection?
  cases operands.head?.bind Operand.name? with
  | none => rfl
  | some name => cases operands[1]?.bind Operand.number? <;> rfl

theorem extGState_stack (r : Resources σ) (operands : List Operand) (c : Context) (m : σ) :
    (extGState r operands c m).value.context.stack =
      match (operands.head?.bind Operand.name?).bind fun name => (r.extGState name m).1.value? with
      | some ext => c.stack.mapLive fun gs => gs.overlay ext
      | none => c.stack := by
  simp only [extGState, bind_value, nameOperand_value, nameOperand_memory]
  cases operands.head?.bind Operand.name? with
  | none => rfl
  | some name =>
    simp only [bind_value, lookup_value, Option.bind_some]
    cases (r.extGState name m).1.value? <;> rfl

theorem perform_unknown_context (r : Resources σ) (name : String) (operands : List Operand)
    (c : Context) (m : σ) : (perform r name operands c .unknown m).value.context = c := by
  simp only [perform]
  cases c.compatibilityDepth == 0 <;> rfl

/-- What an operator does to the ink depends on the ink before it, on its operands and on the
parameter dictionaries. -/
theorem perform_ink {r : Resources σ} {r' : Resources τ} (hr : SameExtGStates r r')
    (name : String) (operands : List Operand) {c c' : Context} (h : c.stack.ink = c'.stack.ink)
    (op : Operation) (m : σ) (m' : τ) :
    (perform r name operands c op m).value.context.stack.ink =
      (perform r' name operands c' op m').value.context.stack.ink := by
  have hl := StateStack.ink_live h
  cases op with
  | save =>
    change c.stack.save.ink = c'.stack.save.ink
    rw [StateStack.ink_save, StateStack.ink_save, h]
  | restore =>
    change c.stack.restore.ink = c'.stack.restore.ink
    rw [StateStack.ink_restore, StateStack.ink_restore, h]
  | extGState =>
    change (extGState r operands c m).value.context.stack.ink =
      (extGState r' operands c' m').value.context.stack.ink
    rw [extGState_stack, extGState_stack]
    cases operands.head?.bind Operand.name? with
    | none => exact h
    | some found =>
      simp only [Option.bind_some, hr found m m']
      cases (r'.extGState found m').1.value? with
      | none => exact h
      | some ext =>
        refine StateStack.ink_mapLive h ?_
        rw [GraphicsState.ink_overlay, GraphicsState.ink_overlay, hl]
  | renderingMode =>
    simp only [perform, bind_value, pure_value, Context.mapLive, renderingMode_value]
    generalize ((operands.head?.bind Operand.integer?).bind RenderingMode.ofInt?).getD .fill = mode
    refine StateStack.ink_mapLive h ?_
    exact congrArg (fun gs : GraphicsState => { gs with renderingMode := mode }) hl
  | deviceColor side family =>
    refine StateStack.ink_mapLive h ?_
    rw [GraphicsState.ink_selectColorSpace, GraphicsState.ink_selectColorSpace, hl]
  | colorSpace side =>
    refine StateStack.ink_mapLive h ?_
    rw [GraphicsState.ink_selectColorSpace, GraphicsState.ink_selectColorSpace, hl]
  | colorOrPattern side =>
    refine StateStack.ink_mapLive h ?_
    exact (selectPattern_ink r side operands c.live m).trans
      (hl.trans (selectPattern_ink r' side operands c'.live m').symm)
  | textFont =>
    simp only [perform, textFont_stack]
    cases fontSelection? operands with
    | none => exact h
    | some font =>
      dsimp only [Option.elim_some]
      refine StateStack.ink_mapLive h ?_
      exact congrArg (fun gs : GraphicsState => gs.selectFont font) hl
  | shading =>
    simp only [perform, bind_value, nameOperand_value]
    cases operands.head?.bind Operand.name? <;> exact h
  | xobject =>
    simp only [perform, bind_value, nameOperand_value]
    cases operands.head?.bind Operand.name? <;> exact h
  | unknown =>
    rw [perform_unknown_context, perform_unknown_context]
    exact h
  | _ => exact h

theorem step_ink {r : Resources σ} {r' : Resources τ} (hr : SameExtGStates r r')
    {i i' : Interpreter} (h : i.context.stack.ink = i'.context.stack.ink) (name : String)
    (operands : List Operand) (m : σ) (m' : τ) :
    (i.step r name operands m).1.1.ink = (i'.step r' name operands m').1.1.ink ∧
      (i.step r name operands m).1.2.context.stack.ink =
        (i'.step r' name operands m').1.2.context.stack.ink := by
  have hs := perform_ink hr name operands h (Operation.ofName name) m m'
  refine ⟨?_, hs⟩
  have hl := congrArg StateStack.live hs
  simp only [Node.ink, step_name, step_operands, step_state, Node.mk.injEq, true_and]
  cases takesSnapshot (Operation.ofName name) with
  | false => rfl
  | true => exact congrArg some hl

end Interpreter

namespace Reading

variable {σ τ : Type}

structure SameInk (reading reading' : Reading) : Prop where
  stack : reading.interpreter.context.stack.ink = reading'.interpreter.context.stack.ink
  operands : reading.operands = reading'.operands
  nodes : reading.nodes.toList.map Node.ink = reading'.nodes.toList.map Node.ink

theorem skipStray_context (i : Interpreter) (text : String) :
    (i.skipStray text).context = i.context := by
  unfold Interpreter.skipStray
  split <;> rfl

theorem feed_sameInk {r : Resources σ} {r' : Resources τ} (hr : Interpreter.SameExtGStates r r')
    {reading : Reading × σ} {reading' : Reading × τ} (h : SameInk reading.1 reading'.1)
    (token : Token) : SameInk (feed r reading token).1 (feed r' reading' token).1 := by
  cases token with
  | operand value => exact ⟨h.stack, by simp only [feed, h.operands], h.nodes⟩
  | stray text =>
    refine ⟨?_, h.operands, h.nodes⟩
    simp only [feed, skipStray_context, h.stack]
  | operator name =>
    obtain ⟨hn, hs⟩ := Interpreter.step_ink hr h.stack name reading.1.operands.toList
      reading.2 reading'.2
    rw [h.operands] at hn hs
    refine ⟨by simpa only [feed, h.operands] using hs, rfl, ?_⟩
    simp only [feed, Array.toList_push, List.map_append, h.nodes, h.operands, List.map_cons,
      List.map_nil, hn]

theorem foldl_sameInk {r : Resources σ} {r' : Resources τ}
    (hr : Interpreter.SameExtGStates r r') (tokens : List Token) {reading : Reading × σ}
    {reading' : Reading × τ} (h : SameInk reading.1 reading'.1) :
    SameInk (tokens.foldl (feed r) reading).1 (tokens.foldl (feed r') reading').1 := by
  induction tokens generalizing reading reading' with
  | nil => exact h
  | cons token tokens ih => exact ih (feed_sameInk hr h token)

end Reading

/-- Two runs over resources with the same parameter dictionaries leave the same nodes but for what
was looked up. -/
theorem Model.ofTokens_ink {σ τ : Type} {r : Resources σ} {r' : Resources τ}
    (hr : Interpreter.SameExtGStates r r') (collects collects' : Bool) (tokens : List Token)
    (m : σ) (m' : τ) :
    (Model.ofTokens r collects tokens m).1.nodes.map Node.ink =
      (Model.ofTokens r' collects' tokens m').1.nodes.map Node.ink := by
  have start : Reading.SameInk { interpreter := { collectsWarnings := collects } }
      { interpreter := { collectsWarnings := collects' } } := ⟨rfl, rfl, rfl⟩
  exact (Reading.foldl_sameInk hr tokens start).nodes

end PdfContent
