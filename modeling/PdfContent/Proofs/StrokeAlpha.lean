import PdfContent.Proofs.PairedRuns
import PdfContent.Proofs.StateChanges

/-!
Stroke alpha in streams that only fill. Stroke alpha is set by `gs`, kept in states, saved and
restored, and handed out with nodes, but nothing that an operator does depends on it: two runs whose
resources differ in it alone differ in it alone. Only the policies of stroking read it, and where
neither a path nor text is stroked none of them is asked.
-/

namespace PdfContent

variable {σ τ : Type}

def ExtGState.eraseStroke (ext : ExtGState) : ExtGState := { ext with strokeAlpha := none }

def GraphicsState.eraseStroke (gs : GraphicsState) : GraphicsState :=
  { gs with stroke := { gs.stroke with alpha := 1.0 } }

def StateStack.eraseStroke (s : StateStack) : StateStack where
  live := s.live.eraseStroke
  saved := s.saved.map GraphicsState.eraseStroke

def Context.eraseStroke (c : Context) : Context := { c with stack := c.stack.eraseStroke }

def NodeKind.eraseStroke : NodeKind → NodeKind
  | extGState name ext => extGState name (ext.map ExtGState.eraseStroke)
  | kind => kind

def Node.eraseStroke (n : Node) : Node :=
  { n with kind := n.kind.eraseStroke, state := n.state.map GraphicsState.eraseStroke }

def Interpreter.eraseStroke (i : Interpreter) : Interpreter :=
  { i with context := i.context.eraseStroke }

/-- Two resources that agree on everything but the stroke alpha of parameter dictionaries. -/
structure Resources.AgreeButStroke (rel : σ → τ → Prop) (r : Resources σ) (r' : Resources τ) : Prop
    extends Resources.Agree rel r r' where
  extGState : ∀ name m m', rel m m' →
    (r.extGState name m).1.map (Option.map ExtGState.eraseStroke) =
        (r'.extGState name m').1.map (Option.map ExtGState.eraseStroke) ∧
      rel (r.extGState name m).2 (r'.extGState name m').2

namespace GraphicsState

theorem eraseStroke_selectColorSpace {gs gs' : GraphicsState}
    (h : gs.eraseStroke = gs'.eraseStroke) (side : Side) (space : ColorSpace) :
    (gs.selectColorSpace side space).eraseStroke =
      (gs'.selectColorSpace side space).eraseStroke := by
  have commutes : ∀ gs : GraphicsState, (gs.selectColorSpace side space).eraseStroke =
      gs.eraseStroke.selectColorSpace side space := fun gs => by cases side <;> rfl
  rw [commutes, commutes, h]

theorem eraseStroke_selectPattern {gs gs' : GraphicsState}
    (h : gs.eraseStroke = gs'.eraseStroke) (side : Side) (pattern : Option Pattern) :
    (gs.selectPattern side pattern).eraseStroke = (gs'.selectPattern side pattern).eraseStroke := by
  have commutes : ∀ gs : GraphicsState, (gs.selectPattern side pattern).eraseStroke =
      gs.eraseStroke.selectPattern side pattern := fun gs => by cases side <;> rfl
  rw [commutes, commutes, h]

theorem eraseStroke_overlay {gs gs' : GraphicsState} (h : gs.eraseStroke = gs'.eraseStroke)
    {ext ext' : ExtGState} (he : ext.eraseStroke = ext'.eraseStroke) :
    (gs.overlay ext).eraseStroke = (gs'.overlay ext').eraseStroke := by
  have commutes : ∀ (gs : GraphicsState) (ext : ExtGState),
      (gs.overlay ext).eraseStroke = gs.eraseStroke.overlay ext.eraseStroke := by
    intro gs ext
    unfold overlay overlayFont
    have font : ext.eraseStroke.font = ext.font := rfl
    rw [font]
    cases ext.font <;> rfl
  rw [commutes, commutes, h, he]

theorem isPattern_of_eraseStroke {gs gs' : GraphicsState} (h : gs.eraseStroke = gs'.eraseStroke)
    (side : Side) :
    (gs.paint side).colorSpace.isPattern = (gs'.paint side).colorSpace.isPattern := by
  have same : ∀ gs : GraphicsState, (gs.eraseStroke.paint side).colorSpace =
      (gs.paint side).colorSpace := fun gs => by cases side <;> rfl
  rw [← same gs, ← same gs', h]

end GraphicsState

theorem StateStack.eraseStroke_restore (s : StateStack) :
    s.restore.eraseStroke = s.eraseStroke.restore := by
  cases h : s.saved <;> simp [restore, eraseStroke, h]

theorem StateStack.depth_of_eraseStroke {s s' : StateStack} (h : s.eraseStroke = s'.eraseStroke) :
    s.depth = s'.depth := by
  have lengths := congrArg StateStack.depth h
  simpa only [depth, eraseStroke, List.length_map] using lengths

namespace Context

variable {c c' : Context}

theorem eraseStroke_congr (stack : c.stack.eraseStroke = c'.stack.eraseStroke)
    (depth : c.compatibilityDepth = c'.compatibilityDepth)
    (pending : c.pendingImage = c'.pendingImage) : c.eraseStroke = c'.eraseStroke := by
  rw [eraseStroke, eraseStroke, stack, depth, pending]

variable (h : c.eraseStroke = c'.eraseStroke)

include h

theorem stack_of_eraseStroke : c.stack.eraseStroke = c'.stack.eraseStroke := congrArg stack h

theorem live_of_eraseStroke : c.live.eraseStroke = c'.live.eraseStroke := congrArg live h

theorem compatibilityDepth_of_eraseStroke : c.compatibilityDepth = c'.compatibilityDepth :=
  (congrArg compatibilityDepth h :)

theorem pendingImage_of_eraseStroke : c.pendingImage = c'.pendingImage :=
  (congrArg pendingImage h :)

theorem eraseStroke_mapLive {f g : GraphicsState → GraphicsState}
    (hl : (f c.live).eraseStroke = (g c'.live).eraseStroke) :
    (c.mapLive f).eraseStroke = (c'.mapLive g).eraseStroke := by
  have depth := compatibilityDepth_of_eraseStroke h
  have pending := pendingImage_of_eraseStroke h
  refine eraseStroke_congr ?_ depth pending
  have saved := congrArg StateStack.saved (stack_of_eraseStroke h)
  change (⟨_, _⟩ : StateStack) = ⟨_, _⟩
  rw [StateStack.mk.injEq]
  exact ⟨hl, saved⟩

end Context

structure Effect.AgreeButStroke (e e' : Effect) : Prop where
  kind : e.kind.eraseStroke = e'.kind.eraseStroke
  context : e.context.eraseStroke = e'.context.eraseStroke

namespace Interpreter

open Resolving

variable {rel : σ → τ → Prop} {r : Resources σ} {r' : Resources τ}

theorem alike_lookup_extGState (agree : r.AgreeButStroke rel r') (name : String) :
    Alike rel (fun ext ext' => ext.map ExtGState.eraseStroke = ext'.map ExtGState.eraseStroke)
      (lookup "ExtGState" r.extGState name) (lookup "ExtGState" r'.extGState name) := by
  have asked : Alike rel (fun found found' => found.map (Option.map ExtGState.eraseStroke) =
      found'.map (Option.map ExtGState.eraseStroke))
      (ask (r.extGState name)) (ask (r'.extGState name)) := by
    intro m m' hm
    obtain ⟨found, memory⟩ := agree.extGState name m m' hm
    exact ⟨found, rfl, memory⟩
  refine asked.bind fun found found' same => ?_
  match found, found' with
  | .ok (some ext), .ok (some ext') => exact alike_pure (Except.ok.inj same)
  | .ok none, .ok none => exact (alike_note _ _).bind_eq fun _ => alike_pure rfl
  | .error failure, .error failure' =>
    cases same
    exact (alike_note _ _).bind_eq fun _ => alike_pure rfl
  | .ok (some _), .ok none => cases same
  | .ok none, .ok (some _) => cases same
  | .ok _, .error _ => cases same
  | .error _, .ok _ => cases same

theorem alike_extGState (agree : r.AgreeButStroke rel r') (operands : List Operand) {c c' : Context}
    (h : c.eraseStroke = c'.eraseStroke) :
    Alike rel Effect.AgreeButStroke (extGState r operands c) (extGState r' operands c') := by
  refine (alike_nameOperand operands).bind_eq fun name => ?_
  cases name with
  | none => exact alike_pure ⟨rfl, h⟩
  | some name =>
    refine (alike_lookup_extGState agree name).bind fun ext ext' same => ?_
    match ext, ext' with
    | none, none => exact alike_pure ⟨rfl, h⟩
    | some ext, some ext' =>
      have he : ext.eraseStroke = ext'.eraseStroke := Option.some.inj same
      refine alike_pure ⟨?_, ?_⟩
      · exact congrArg (fun ext => NodeKind.extGState (some name) (some ext)) he
      · exact Context.eraseStroke_mapLive h
          (GraphicsState.eraseStroke_overlay (Context.live_of_eraseStroke h) he)
    | none, some _ => cases same
    | some _, none => cases same

theorem alike_textFont (agree : r.AgreeButStroke rel r') (operands : List Operand) {c c' : Context}
    (h : c.eraseStroke = c'.eraseStroke) :
    Alike rel Effect.AgreeButStroke (textFont r operands c) (textFont r' operands c') := by
  have size : c.live.fontSize = c'.live.fontSize :=
    (congrArg GraphicsState.fontSize (Context.live_of_eraseStroke h) :)
  unfold textFont
  split
  · rename_i name size _ _
    refine (alike_lookup (agree.font name) _).bind_eq fun font => alike_pure ⟨rfl, ?_⟩
    exact Context.eraseStroke_mapLive h
      (congrArg (GraphicsState.selectFont · ⟨name, size⟩) (Context.live_of_eraseStroke h))
  · rw [size]
    exact (alike_malformed _).bind_eq fun _ => alike_pure ⟨rfl, h⟩

theorem alike_selectPattern (agree : r.AgreeButStroke rel r') (side : Side)
    (operands : List Operand) {gs gs' : GraphicsState} (h : gs.eraseStroke = gs'.eraseStroke) :
    Alike rel (fun gs gs' => gs.eraseStroke = gs'.eraseStroke) (selectPattern r side operands gs)
      (selectPattern r' side operands gs') := by
  unfold selectPattern
  rw [GraphicsState.isPattern_of_eraseStroke h]
  split
  · split
    · exact (alike_malformed _).bind_eq fun _ => alike_pure h
    · exact (alike_lookup (agree.pattern _) _).bind_eq fun pattern =>
        alike_pure (GraphicsState.eraseStroke_selectPattern h side pattern)
  · exact alike_pure h

theorem alike_perform (agree : r.AgreeButStroke rel r') (name : String) (operands : List Operand)
    {c c' : Context} (h : c.eraseStroke = c'.eraseStroke) (op : Operation) :
    Alike rel Effect.AgreeButStroke (perform r name operands c op)
      (perform r' name operands c' op) := by
  have live := Context.live_of_eraseStroke h
  have stack := Context.stack_of_eraseStroke h
  have depth := Context.compatibilityDepth_of_eraseStroke h
  have pending := Context.pendingImage_of_eraseStroke h
  have select : ∀ side space, (c.mapLive (·.selectColorSpace side space)).eraseStroke =
      (c'.mapLive (·.selectColorSpace side space)).eraseStroke := fun side space =>
    Context.eraseStroke_mapLive h (GraphicsState.eraseStroke_selectColorSpace live side space)
  cases op with
  | dashPattern => exact (alike_dashPattern operands).bind_eq fun _ => alike_pure ⟨rfl, h⟩
  | extGState => exact alike_extGState agree operands h
  | transform => exact (alike_matrix operands).bind_eq fun _ => alike_pure ⟨rfl, h⟩
  | deviceColor side family =>
    exact (alike_deviceSpace agree.toAgree family).bind_eq fun space =>
      alike_pure ⟨rfl, select side space⟩
  | colorSpace side =>
    exact (alike_namedColorSpace agree.toAgree operands).bind_eq fun space =>
      alike_pure ⟨rfl, select side space⟩
  | colorOrPattern side =>
    exact (alike_selectPattern agree side operands live).bind fun gs gs' same =>
      alike_pure ⟨rfl, Context.eraseStroke_mapLive h same⟩
  | renderingMode =>
    refine (alike_renderingMode operands).bind_eq fun mode => alike_pure ⟨rfl, ?_⟩
    exact Context.eraseStroke_mapLive h
      (congrArg (fun gs => { gs with renderingMode := mode }) live)
  | textFont => exact alike_textFont agree operands h
  | textShow shown =>
    have font : c.live.fontName = c'.live.fontName := (congrArg GraphicsState.fontName live :)
    exact (alike_shownStrings operands shown).bind_eq fun _ =>
      (alike_selectedFont agree.toAgree font).bind_eq fun _ => alike_pure ⟨rfl, h⟩
  | endImage =>
    exact (alike_inlineImage agree.toAgree operands pending).bind_eq fun _ =>
      alike_pure ⟨rfl, Context.eraseStroke_congr stack depth rfl⟩
  | shading =>
    refine (alike_nameOperand operands).bind_eq fun found => ?_
    split
    · exact (alike_lookup (agree.shading _) _).bind_eq fun _ => alike_pure ⟨rfl, h⟩
    · exact alike_pure ⟨rfl, h⟩
  | xobject =>
    have painted : ∀ xobject, (c.mapLive fun gs => { gs with xobject }).eraseStroke =
        (c'.mapLive fun gs => { gs with xobject }).eraseStroke := fun xobject =>
      Context.eraseStroke_mapLive h (congrArg (fun gs => { gs with xobject }) live)
    refine (alike_nameOperand operands).bind_eq fun found => ?_
    dsimp only
    split
    · exact (alike_lookup (agree.xobject _) _).bind_eq fun x => alike_pure ⟨rfl, painted x⟩
    · exact Alike.bind_eq (alike_pure rfl) fun x => alike_pure ⟨rfl, painted x⟩
  | unknown =>
    have same : Effect.AgreeButStroke ⟨.generic, c⟩ ⟨.generic, c'⟩ := ⟨rfl, h⟩
    simp only [perform, depth]
    split
    · exact (alike_note _ _).bind_eq fun _ => alike_pure same
    · exact alike_pure same
  | save =>
    have saved : c.stack.save.eraseStroke = c'.stack.save.eraseStroke :=
      (congrArg StateStack.save stack :)
    refine alike_pure ⟨?_, Context.eraseStroke_congr saved depth pending⟩
    exact congrArg NodeKind.saveState (StateStack.depth_of_eraseStroke saved)
  | restore =>
    have restored : c.stack.restore.eraseStroke = c'.stack.restore.eraseStroke := by
      rw [StateStack.eraseStroke_restore, StateStack.eraseStroke_restore, stack]
    refine alike_pure ⟨?_, Context.eraseStroke_congr restored depth pending⟩
    exact congrArg NodeKind.restoreState (StateStack.depth_of_eraseStroke restored)
  | beginImage => exact alike_pure ⟨rfl, Context.eraseStroke_congr stack depth rfl⟩
  | imageData => exact alike_pure ⟨rfl, Context.eraseStroke_congr stack depth rfl⟩
  | beginCompatibility =>
    exact alike_pure ⟨rfl, Context.eraseStroke_congr stack (congrArg (· + 1) depth) pending⟩
  | endCompatibility =>
    exact alike_pure ⟨rfl, Context.eraseStroke_congr stack (congrArg (· - 1) depth) pending⟩
  | _ => exact alike_pure ⟨rfl, h⟩

theorem step_agreeButStroke (agree : r.AgreeButStroke rel r') {i i' : Interpreter}
    (h : i.eraseStroke = i'.eraseStroke) (name : String) (operands : List Operand) {m : σ} {m' : τ}
    (hm : rel m m') :
    (i.step r name operands m).1.1.eraseStroke = (i'.step r' name operands m').1.1.eraseStroke ∧
      (i.step r name operands m).1.2.eraseStroke = (i'.step r' name operands m').1.2.eraseStroke ∧
      rel (i.step r name operands m).2 (i'.step r' name operands m').2 := by
  have context : i.context.eraseStroke = i'.context.eraseStroke := congrArg Interpreter.context h
  have index : i.index = i'.index := (congrArg Interpreter.index h :)
  have collects : i.collectsWarnings = i'.collectsWarnings :=
    (congrArg Interpreter.collectsWarnings h :)
  have warnings : i.warnings = i'.warnings := (congrArg Interpreter.warnings h :)
  have outcome := alike_perform agree name operands context (Operation.ofName name) m m' hm
  have live := Context.live_of_eraseStroke outcome.value.context
  refine ⟨?_, ?_, outcome.memory⟩
  · simp only [step, Node.eraseStroke, Node.mk.injEq, true_and]
    refine ⟨index, outcome.value.kind, ?_⟩
    split
    · exact congrArg some live
    · rfl
  · simp only [step, Interpreter.eraseStroke, Interpreter.mk.injEq]
    rw [index, collects, warnings, outcome.issues]
    exact ⟨outcome.value.context, rfl, rfl, rfl⟩

theorem eraseStroke_skipStray {i i' : Interpreter} (h : i.eraseStroke = i'.eraseStroke)
    (text : String) : (i.skipStray text).eraseStroke = (i'.skipStray text).eraseStroke := by
  have commutes : ∀ i : Interpreter,
      (i.skipStray text).eraseStroke = i.eraseStroke.skipStray text := by
    intro i
    unfold skipStray
    cases hc : i.collectsWarnings <;> simp [eraseStroke, hc]
  rw [commutes, commutes, h]

end Interpreter

structure Reading.AgreeButStroke (rel : σ → τ → Prop) (reading : Reading × σ)
    (reading' : Reading × τ) : Prop where
  interpreter : reading.1.interpreter.eraseStroke = reading'.1.interpreter.eraseStroke
  operands : reading.1.operands = reading'.1.operands
  nodes : reading.1.nodes.toList.map Node.eraseStroke = reading'.1.nodes.toList.map Node.eraseStroke
  memory : rel reading.2 reading'.2

namespace Reading.AgreeButStroke

variable {rel : σ → τ → Prop} {r : Resources σ} {r' : Resources τ} {reading : Reading × σ}
  {reading' : Reading × τ}

theorem feed (h : AgreeButStroke rel reading reading') (agree : r.AgreeButStroke rel r')
    (token : Token) :
    AgreeButStroke rel (Reading.feed r reading token) (Reading.feed r' reading' token) := by
  cases token with
  | operand value =>
    exact ⟨h.interpreter, congrArg (·.push value) h.operands, h.nodes, h.memory⟩
  | stray text =>
    exact ⟨Interpreter.eraseStroke_skipStray h.interpreter text, h.operands, h.nodes, h.memory⟩
  | operator name =>
    obtain ⟨node, interpreter, memory⟩ := Interpreter.step_agreeButStroke agree h.interpreter name
      reading.1.operands.toList h.memory
    rw [h.operands] at node interpreter memory
    have operands := h.operands
    refine ⟨?_, rfl, ?_, ?_⟩
    · simpa only [Reading.feed, operands] using interpreter
    · simp only [Reading.feed, Array.toList_push, List.map_append, List.map_cons, List.map_nil,
        operands, node, h.nodes]
    · simpa only [Reading.feed, operands] using memory

theorem foldl (h : AgreeButStroke rel reading reading') (agree : r.AgreeButStroke rel r')
    (tokens : List Token) :
    AgreeButStroke rel (tokens.foldl (Reading.feed r) reading)
      (tokens.foldl (Reading.feed r') reading') := by
  induction tokens generalizing reading reading' with
  | nil => exact h
  | cons token tokens ih => exact ih (h.feed agree token)

end Reading.AgreeButStroke

structure Model.AgreeButStroke (model model' : Model) : Prop where
  nodes : model.nodes.map Node.eraseStroke = model'.nodes.map Node.eraseStroke
  warnings : model.warnings = model'.warnings
  stackDepth : model.stackDepth = model'.stackDepth

theorem Node.glyphWarnings_eraseStroke (n : Node) :
    n.eraseStroke.glyphWarnings = n.glyphWarnings := by
  have shown : n.eraseStroke.shown = n.shown := by
    unfold shown
    cases h : n.kind <;> simp [eraseStroke, NodeKind.eraseStroke, h]
  unfold glyphWarnings
  rw [shown]
  rfl

theorem Model.AgreeButStroke.allWarnings {model model' : Model} (h : model.AgreeButStroke model') :
    model.allWarnings = model'.allWarnings := by
  have glyphs : ∀ model : Model, model.glyphWarnings =
      (model.nodes.map Node.eraseStroke).flatMap Node.glyphWarnings := by
    intro model
    rw [List.flatMap_map]
    exact congrArg (List.flatMap · _) (funext fun n => n.glyphWarnings_eraseStroke.symm)
  rw [Model.allWarnings, Model.allWarnings, h.warnings, glyphs, glyphs, h.nodes]

/-- Whatever a stream does, stroke alpha decides neither what it warns of nor what it saves nor what
its nodes hold besides. -/
theorem Model.ofTokens_agreeButStroke {rel : σ → τ → Prop} {r : Resources σ} {r' : Resources τ}
    (agree : r.AgreeButStroke rel r') (collectsWarnings : Bool) (tokens : List Token) {m : σ}
    {m' : τ} (hm : rel m m') :
    (ofTokens r collectsWarnings tokens m).1.AgreeButStroke
      (ofTokens r' collectsWarnings tokens m').1 := by
  have start : Reading.AgreeButStroke rel ({ interpreter := { collectsWarnings } }, m)
      ({ interpreter := { collectsWarnings } }, m') := ⟨rfl, rfl, rfl, hm⟩
  have finish := start.foldl agree tokens
  refine ⟨finish.nodes, ?_, ?_⟩
  · exact congrArg (fun i => i.warnings.toList) finish.interpreter
  · exact StateStack.depth_of_eraseStroke
      (Context.stack_of_eraseStroke (congrArg Interpreter.context finish.interpreter))

end PdfContent
