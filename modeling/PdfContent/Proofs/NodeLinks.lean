import PdfContent.Proofs.EndedRuns
import PdfContent.Proofs.OperatorNodes
import PdfContent.Proofs.StateParts

/-!
What a node links to and the state that it carries. `Do` puts what it found into the live state
before that is handed out, so the link and the state agree, whatever was painted earlier. A text
operator looks its font up under the name that the live state selects, however the name got there:
`Tf` and parameter dictionaries set it, `q` and `Q` keep it and bring it back, and the nodes so far
tell which one it is.
-/

namespace PdfContent

variable {σ : Type}

/-- The font name that the live state selects, and those of the saved states, newest first. -/
structure FontNames where
  live : Option String := none
  saved : List (Option String) := []

namespace FontNames

def ofStack (s : StateStack) : FontNames := ⟨s.live.fontName, s.saved.map GraphicsState.fontName⟩

def change (names : FontNames) : NodeKind → FontNames
  | .textFont (some name) _ _ => { names with live := some name }
  | .extGState _ (some ext) =>
    { names with live := (ext.font.map FontSelection.name).or names.live }
  | .saveState _ => { names with saved := names.live :: names.saved }
  | .restoreState _ => ⟨names.saved.headD names.live, names.saved.tail⟩
  | _ => names

def ofNodes (nodes : List Node) : FontNames := nodes.foldl (fun names n => names.change n.kind) {}

theorem ofStack_restore (s : StateStack) (depth : Nat) :
    ofStack s.restore = (ofStack s).change (.restoreState depth) := by
  cases saved : s.saved with
  | nil => simp [ofStack, change, StateStack.restore, saved]
  | cons top rest => simp [ofStack, change, StateStack.restore, saved]

theorem fontName_overlay (gs : GraphicsState) (ext : ExtGState) :
    (gs.overlay ext).fontName = (ext.font.map FontSelection.name).or gs.fontName := by
  unfold GraphicsState.overlay GraphicsState.overlayFont
  cases ext.font <;> rfl

theorem ofStack_eq {s s' : StateStack} (live : StatePart.fontName.Same s.live s'.live)
    (saved : s'.saved = s.saved) : ofStack s' = ofStack s := by
  have name : s'.live.fontName = s.live.fontName := Eq.symm live
  rw [ofStack, ofStack, name, saved]

end FontNames

namespace Interpreter

open Resolving FontNames

variable (r : Resources σ)

theorem extGState_fontNames (operands : List Operand) (c : Context) (m : σ) :
    ofStack (extGState r operands c m).value.context.stack =
      (ofStack c.stack).change (extGState r operands c m).value.kind := by
  simp only [extGState, bind_value, nameOperand_value]
  cases operands.head?.bind Operand.name? with
  | none => rfl
  | some name =>
    simp only [bind_value]
    cases (lookup "ExtGState" r.extGState name _).value with
    | none => rfl
    | some ext =>
      have live := fontName_overlay c.live ext
      exact congrArg (FontNames.mk · _) live

theorem textFont_fontNames (operands : List Operand) (c : Context) (m : σ) :
    ofStack (textFont r operands c m).value.context.stack =
      (ofStack c.stack).change (textFont r operands c m).value.kind := by
  unfold textFont
  cases operands.head?.bind Operand.name? with
  | none => rfl
  | some name => cases operands[1]?.bind Operand.number? <;> rfl

theorem perform_fontNames (name : String) (operands : List Operand) (c : Context)
    (op : Operation) (m : σ) :
    ofStack (perform r name operands c op m).value.context.stack =
      (ofStack c.stack).change (perform r name operands c op m).value.kind := by
  cases op with
  | restore => exact ofStack_restore c.stack _
  | extGState => exact extGState_fontNames r operands c m
  | textFont => exact textFont_fontNames r operands c m
  | deviceColor side family => cases side <;> rfl
  | colorSpace side => cases side <;> rfl
  | colorOrPattern side =>
    have live : StatePart.fontName.Same c.live (selectPattern r side operands c.live m).value :=
      selectPattern_same r operands c.live (by simp) m
    exact ofStack_eq live rfl
  | shading =>
    simp only [perform, bind_value, nameOperand_value]
    cases operands.head?.bind Operand.name? <;> rfl
  | xobject =>
    simp only [perform, bind_value, nameOperand_value]
    cases operands.head?.bind Operand.name? <;> rfl
  | unknown =>
    simp only [perform]
    cases c.compatibilityDepth == 0 <;> rfl
  | _ => rfl

theorem selectedFont_value (gs : GraphicsState) (m : σ) :
    (selectedFont r gs m).value = gs.fontName.bind fun font => (r.font font m).1.value? := by
  unfold selectedFont
  cases gs.fontName with
  | none => rfl
  | some font => exact lookup_value "font" r.font font m

theorem perform_textShow_kind (name : String) (operands : List Operand) (c : Context)
    (shown : ShownOperand) (m : σ) :
    (perform r name operands c (.textShow shown) m).value.kind =
      .textShow (c.live.fontName.bind fun font => (r.font font m).1.value?)
        (shownStrings operands shown m).value := by
  rw [← selectedFont_value]
  simp only [perform, bind_value, pure_value, shownStrings_memory]

theorem step_shownFont (i : Interpreter) {name : String} (shows : name ∈ ["Tj", "TJ", "'", "\""])
    (operands : List Operand) (m : σ) :
    (i.step r name operands m).1.1.state = some i.state ∧
      (i.step r name operands m).1.1.font? =
        i.state.fontName.bind fun font => (r.font font m).1.value? := by
  obtain ⟨shown, op⟩ := Operation.ofName_shows shows
  constructor
  · simp only [step, op]
    rfl
  · simp only [Node.font?, step, op, perform_textShow_kind]
    rfl

theorem perform_xobject_kind (name : String) (operands : List Operand) (c : Context) (m : σ) :
    (perform r name operands c .xobject m).value.kind =
      .xobject (operands.head?.bind Operand.name?)
        (perform r name operands c .xobject m).value.context.live.xobject := by
  simp only [perform, bind_value, nameOperand_value]
  cases operands.head?.bind Operand.name? <;> rfl

theorem step_painted (i : Interpreter) (operands : List Operand) (m : σ) :
    (i.step r "Do" operands m).1.1.state = some (i.step r "Do" operands m).1.2.state ∧
      (i.step r "Do" operands m).1.1.xobject? = (i.step r "Do" operands m).1.2.state.xobject ∧
      (i.step r "Do" operands m).1.2.state.xobject =
        (operands.head?.bind Operand.name?).bind fun name => (r.xobject name m).1.value? := by
  have op : Operation.ofName "Do" = .xobject := rfl
  refine ⟨rfl, ?_, ?_⟩
  · simp only [Node.xobject?, step, op, perform_xobject_kind]
    rfl
  · exact perform_xobject_live r "Do" operands i.context m

end Interpreter

namespace Reading

theorem fontNames_ofTokens (r : Resources σ) (collectsWarnings : Bool) (m : σ)
    (tokens : List Token) :
    FontNames.ofStack (ofTokens r collectsWarnings m tokens).1.interpreter.context.stack =
      FontNames.ofNodes (ofTokens r collectsWarnings m tokens).1.nodes.toList :=
  context_ofTokens r collectsWarnings m (fun c => FontNames.ofStack c.stack)
    (fun names n => names.change n.kind)
    (fun i name operands m =>
      Interpreter.perform_fontNames r name operands i.context (Operation.ofName name) m) tokens

end Reading

namespace Model

/-- A `Do` links to the object that its state paints, which is what the resources give for its
name, or none. A text operator links to what they give for the font name of its state, or to none,
and that is the name that the operators in front of it selected and brought back last. -/
theorem ofTokens_links (r : Resources σ) (collectsWarnings : Bool) (m : σ)
    (before after : List Token) :
    (∃ n s, (ofTokens r collectsWarnings (before ++ .operator "Do" :: after) m).1.nodes[
          (Token.operators before).length]? = some n ∧ n.state = some s ∧
        n.linked .xobject = s.xobject.toList.map .xobject ∧
        s.xobject = ((Token.waiting before).head?.bind Operand.name?).bind fun name =>
          (r.xobject name (Reading.ofTokens r collectsWarnings m before).2).1.value?) ∧
    ∀ name ∈ ["Tj", "TJ", "'", "\""],
      ∃ n s, (ofTokens r collectsWarnings (before ++ .operator name :: after) m).1.nodes[
          (Token.operators before).length]? = some n ∧ n.state = some s ∧
        n.linked .font = (s.fontName.bind fun font =>
          (r.font font (Reading.ofTokens r collectsWarnings m before).2).1.value?).toList.map
            .font ∧
        s.fontName = (FontNames.ofNodes (ofTokens r collectsWarnings before m).1.nodes).live := by
  constructor
  · obtain ⟨state, link, found⟩ := Interpreter.step_painted r
      (Reading.ofTokens r collectsWarnings m before).1.interpreter (Token.waiting before)
      (Reading.ofTokens r collectsWarnings m before).2
    refine ⟨_, _, Reading.getElem?_nodes_ofTokens r collectsWarnings m before "Do" after, state,
      ?_, found⟩
    rw [← link]
    rfl
  · intro name shows
    obtain ⟨state, link⟩ := Interpreter.step_shownFont r
      (Reading.ofTokens r collectsWarnings m before).1.interpreter shows (Token.waiting before)
      (Reading.ofTokens r collectsWarnings m before).2
    have names := Reading.fontNames_ofTokens r collectsWarnings m before
    refine ⟨_, _, Reading.getElem?_nodes_ofTokens r collectsWarnings m before name after, state,
      ?_, congrArg FontNames.live names⟩
    rw [← link]
    rfl

def plainFont : Font where
  body := .simple .type1 none {}
  baseFont := some "Plain"

def plainFontTable : ResourceTable where
  fonts := [("F", plainFont)]
  extGStates := [("GS", { font := some ⟨"F", 12.0⟩ })]

def fontBroughtBack : List Token :=
  [.operand (.name "GS"), .operator "gs", .operator "q", .operand (.name "Lost"),
    .operand (.integer 9), .operator "Tf", .operator "Q", .operand (.literal [0x41])]

theorem ofTokens_links_fontBroughtBack :
    "Tj" ∈ ["Tj", "TJ", "'", "\""] ∧
      ∃ n s, (ofTokens plainFontTable.resources true (fontBroughtBack ++ .operator "Tj" :: [])
          ()).1.nodes[4]? = some n ∧ n.state = some s ∧ s.fontName = some "F" ∧
        n.linked .font = [.font plainFont] := by
  have shows : "Tj" ∈ ["Tj", "TJ", "'", "\""] := by decide
  have name : (FontNames.ofNodes
      (ofTokens plainFontTable.resources true fontBroughtBack ()).1.nodes).live = some "F" := rfl
  obtain ⟨-, fonts⟩ := ofTokens_links plainFontTable.resources true () fontBroughtBack []
  obtain ⟨n, s, found, state, link, selected⟩ := fonts "Tj" shows
  rw [name] at selected
  rw [selected] at link
  exact ⟨shows, n, s, found, state, selected, link⟩

end Model

end PdfContent
