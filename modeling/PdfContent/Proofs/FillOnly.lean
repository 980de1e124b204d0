import PdfContent.Proofs.StrokeAlpha

/-!
Streams that only fill: no operator strokes a path, and no rendering mode is selected in which text
is stroked. Every state, live or saved, is then in a mode that does not stroke, so no node is judged
by a policy that reads stroke alpha.
-/

namespace PdfContent

variable {σ τ : Type}

def RenderingMode.strokes : RenderingMode → Bool
  | stroke => true
  | fillStroke => true
  | strokeClip => true
  | fillStrokeClip => true
  | _ => false

/-- The operators among tokens, each with the operands that wait for it; some may wait already. -/
def Token.commands (waiting : List Operand) : List Token → List Command
  | [] => []
  | operand value :: rest => commands (waiting ++ [value]) rest
  | stray _ :: rest => commands waiting rest
  | operator name :: rest => ⟨name, waiting⟩ :: commands [] rest

def Operation.strokers : List String := ["S", "s", "B", "B*", "b", "b*"]

structure Command.FillsOnly (c : Command) : Prop where
  path : c.name ∉ Operation.strokers
  text : c.name = "Tr" →
    ∀ mode ∈ c.operands.head?.bind Operand.integer?, mode ∉ ([1, 2, 5, 6] : List Int)

theorem Command.fillsOnly_iff (c : Command) :
    c.FillsOnly ↔ c.name ∉ Operation.strokers ∧ (c.name = "Tr" →
      ∀ mode ∈ c.operands.head?.bind Operand.integer?, mode ∉ ([1, 2, 5, 6] : List Int)) :=
  ⟨fun h => ⟨h.path, h.text⟩, fun h => ⟨h.1, h.2⟩⟩

instance (c : Command) : Decidable c.FillsOnly := decidable_of_iff' _ c.fillsOnly_iff

def GraphicsState.Quiet (gs : GraphicsState) : Prop := gs.renderingMode.strokes = false

theorem Operation.ofName_eq_renderingMode_iff {name : String} :
    ofName name = renderingMode ↔ name = "Tr" :=
  ofName_eq_iff (by decide) (by decide) (by decide)

namespace TransparencyPolicy

def fills : List TransparencyPolicy := [neither, fill, fillXObject, fillFont]

theorem holds_eraseStroke {policy : TransparencyPolicy} (h : policy ∈ fills) (gs : GraphicsState) :
    policy.holds gs.eraseStroke = policy.holds gs := by
  cases policy with
  | neither => rfl
  | fill => rfl
  | fillXObject => rfl
  | fillFont => rfl
  | _ => exact absurd h (by decide)

theorem mem_fills_of_ofOperator? {name : String} {mode : RenderingMode}
    {policy : TransparencyPolicy}
    (path : name ∉ Operation.strokers) (text : mode.strokes = false)
    (h : ofOperator? name mode = some policy) : policy ∈ fills := by
  have listed : (name, Operation.ofName name) ∈ Operation.table := by
    apply Operation.mem_table_of_ofName
    intro unknown
    rw [ofOperator?, unknown] at h
    cases h
  have all : ∀ mode : RenderingMode, mode.strokes = false → ∀ entry ∈ Operation.table,
      entry.1 ∉ Operation.strokers → (entry.2.policy? mode).all (· ∈ fills) = true := by
    intro mode
    cases mode <;> decide
  have found := all mode text _ listed path
  rw [ofOperator?] at h
  rw [h] at found
  simpa using found

end TransparencyPolicy

theorem Node.isTransparent_eraseStroke {n : Node} (path : n.name ∉ Operation.strokers)
    (text : ∀ s ∈ n.state, s.renderingMode.strokes = false) :
    n.eraseStroke.isTransparent = n.isTransparent := by
  cases hs : n.state with
  | none => simp [isTransparent, eraseStroke, hs]
  | some s =>
    have mode : s.eraseStroke.renderingMode = s.renderingMode := rfl
    simp only [isTransparent, eraseStroke, hs, Option.map_some, Option.any_some, mode]
    cases hp : TransparencyPolicy.ofOperator? n.name s.renderingMode with
    | none => rfl
    | some policy =>
      exact TransparencyPolicy.holds_eraseStroke
        (TransparencyPolicy.mem_fills_of_ofOperator? path (text s hs) hp) s

theorem GraphicsState.overlay_renderingMode (gs : GraphicsState) (ext : ExtGState) :
    (gs.overlay ext).renderingMode = gs.renderingMode := by
  unfold overlay overlayFont
  split <;> rfl

namespace Interpreter

open Resolving

variable {r : Resources σ}

theorem renderingMode_strokes {operands : List Operand}
    (h : ∀ mode ∈ operands.head?.bind Operand.integer?, mode ∉ ([1, 2, 5, 6] : List Int)) (m : σ) :
    (renderingMode operands m).value.strokes = false := by
  rw [renderingMode_value]
  cases hi : operands.head?.bind Operand.integer? with
  | none => rfl
  | some i =>
    have quiet := h i hi
    rw [Option.bind_some]
    unfold RenderingMode.ofInt?
    split
    all_goals first | rfl | exact absurd quiet (by decide)

theorem perform_renderingMode (r : Resources σ) (name : String) (operands : List Operand)
    (c : Context) {op : Operation} (save : op ≠ .save) (restore : op ≠ .restore)
    (mode : op ≠ .renderingMode) (m : σ) :
    (perform r name operands c op m).value.context.live.renderingMode = c.live.renderingMode := by
  cases op with
  | save => exact absurd rfl save
  | restore => exact absurd rfl restore
  | renderingMode => exact absurd rfl mode
  | deviceColor side family =>
    have ink := GraphicsState.ink_selectColorSpace c.live side
    exact (congrArg GraphicsState.renderingMode (ink _) :)
  | colorSpace side =>
    have ink := GraphicsState.ink_selectColorSpace c.live side
    exact (congrArg GraphicsState.renderingMode (ink _) :)
  | colorOrPattern side =>
    exact (congrArg GraphicsState.renderingMode (selectPattern_ink r side operands c.live m) :)
  | textFont =>
    change (textFont r operands c m).value.context.stack.live.renderingMode = _
    rw [textFont_stack]
    cases fontSelection? operands <;> rfl
  | extGState =>
    have stack := extGState_stack r operands c m
    change (extGState r operands c m).value.context.stack.live.renderingMode = _
    rw [stack]
    split
    · exact GraphicsState.overlay_renderingMode c.live _
    · rfl
  | shading =>
    simp only [perform, bind_value, nameOperand_value]
    cases operands.head?.bind Operand.name? <;> rfl
  | xobject =>
    simp only [perform, bind_value, nameOperand_value]
    cases operands.head?.bind Operand.name? <;> rfl
  | unknown => rw [perform_unknown_context]
  | _ => rfl

theorem step_quiet {i : Interpreter} (h : i.context.stack.All GraphicsState.Quiet) {c : Command}
    (fills : c.FillsOnly) (m : σ) :
    (i.step r c.name c.operands m).1.2.context.stack.All GraphicsState.Quiet := by
  by_cases save : c.name = "q"
  · have stack := runCommand_save (r := r) save (i, m)
    exact stack ▸ h.save
  · by_cases restore : c.name = "Q"
    · have stack := runCommand_restore (r := r) restore (i, m)
      exact stack ▸ h.restore
    · have saved := runCommand_saved (r := r) save restore (i, m)
      refine ⟨?_, fun gs hg => h.saved gs (saved ▸ hg)⟩
      -- Of the operators that change the live state alone only one sets its mode.
      by_cases mode : Operation.ofName c.name = .renderingMode
      · have text := fills.text (Operation.ofName_eq_renderingMode_iff.1 mode)
        have quiet := renderingMode_strokes text m
        simp only [step, mode]
        exact quiet
      · have save := mt Operation.ofName_eq_save_iff.1 save
        have restore := mt Operation.ofName_eq_restore_iff.1 restore
        have same := perform_renderingMode r c.name c.operands i.context save restore mode m
        exact (congrArg RenderingMode.strokes same).trans h.live

end Interpreter

namespace Reading

structure FillsOnly (reading : Reading) : Prop where
  stack : reading.interpreter.context.stack.All GraphicsState.Quiet
  nodes : ∀ n ∈ reading.nodes.toList, n.name ∉ Operation.strokers ∧
    ∀ s ∈ n.state, s.renderingMode.strokes = false

variable {r : Resources σ} {reading : Reading × σ}

theorem FillsOnly.operator (h : reading.1.FillsOnly) {name : String}
    (fills : Command.FillsOnly ⟨name, reading.1.operands.toList⟩) :
    (feed r reading (.operator name)).1.FillsOnly := by
  have stack := Interpreter.step_quiet (r := r) h.stack fills reading.2
  refine ⟨stack, fun n hn => ?_⟩
  simp only [feed, Array.toList_push, List.mem_append, List.mem_singleton] at hn
  rcases hn with hn | rfl
  · exact h.nodes n hn
  · refine ⟨fills.path, fun s hs => ?_⟩
    rw [Interpreter.eq_of_mem_step_state hs]
    exact stack.live

theorem FillsOnly.foldl (h : reading.1.FillsOnly) {tokens : List Token}
    (fills : ∀ c ∈ Token.commands reading.1.operands.toList tokens, c.FillsOnly) :
    (tokens.foldl (feed r) reading).1.FillsOnly := by
  induction tokens generalizing reading with
  | nil => exact h
  | cons token tokens ih =>
    cases token with
    | operand value =>
      refine ih ⟨h.stack, h.nodes⟩ ?_
      simp only [feed, Array.toList_push]
      exact fills
    | stray text =>
      refine ih ⟨?_, h.nodes⟩ fills
      simp only [feed, skipStray_context]
      exact h.stack
    | operator name =>
      obtain ⟨first, rest⟩ := List.forall_mem_cons.1 fills
      exact ih (h.operator first) rest

end Reading

namespace ResourceTable

theorem find_map {α β : Type} (table : ResourceTable) (f : α → β) (entries : List (String × α))
    (name : String) : (table.find entries name).map (Option.map f) =
      table.find (entries.map fun entry => (entry.1, f entry.2)) name := by
  have lookup : (entries.lookup name).map f =
      (entries.map fun entry => (entry.1, f entry.2)).lookup name := by
    induction entries with
    | nil => rfl
    | cons entry entries ih =>
      rw [List.map_cons, List.lookup_cons, List.lookup_cons]
      cases name == entry.1 with
      | true => rfl
      | false => exact ih
  unfold find
  split
  · rfl
  · exact congrArg Except.ok lookup

theorem agreeButStroke (table : ResourceTable) {exts exts' : List (String × ExtGState)}
    (h : (exts.map fun entry => (entry.1, entry.2.eraseStroke)) =
      exts'.map fun entry => (entry.1, entry.2.eraseStroke)) :
    ({ table with extGStates := exts }.resources (σ := Unit)).AgreeButStroke (fun _ _ => True)
      ({ table with extGStates := exts' }.resources (σ := Unit)) where
  colorSpace _ _ _ _ := ⟨rfl, trivial⟩
  font _ _ _ _ := ⟨rfl, trivial⟩
  pattern _ _ _ _ := ⟨rfl, trivial⟩
  shading _ _ _ _ := ⟨rfl, trivial⟩
  xobject _ _ _ _ := ⟨rfl, trivial⟩
  defaultColorSpace _ _ _ _ := ⟨rfl, trivial⟩
  extGState name _ _ _ := by
    refine ⟨?_, trivial⟩
    change (table.find exts name).map _ = (table.find exts' name).map _
    rw [find_map, find_map, h]

end ResourceTable

namespace Model

/-- The flag of a stream that only fills, read off the nodes without their stroke alpha. -/
theorem flag_eq_of_fillsOnly (r : Resources σ) (collectsWarnings : Bool) {tokens : List Token}
    (fills : ∀ c ∈ Token.commands [] tokens, c.FillsOnly) (m : σ) :
    (ofTokens r collectsWarnings tokens m).1.containsTransparency =
      ((ofTokens r collectsWarnings tokens m).1.nodes.map Node.eraseStroke).any
        Node.isTransparent := by
  have start : Reading.FillsOnly { interpreter := { collectsWarnings } } :=
    ⟨.start rfl, by rintro n ⟨⟩⟩
  have finish : (tokens.foldl (Reading.feed r)
      ({ interpreter := { collectsWarnings } }, m)).1.FillsOnly :=
    Reading.FillsOnly.foldl start fills
  rw [ofTokens_flag, List.any_map, Bool.eq_iff_iff, List.any_eq_true, List.any_eq_true]
  refine exists_congr fun n => and_congr_right fun hn => ?_
  obtain ⟨path, text⟩ := finish.nodes n hn
  rw [Function.comp_apply, Node.isTransparent_eraseStroke path text]

/-- Two runs of a stream that only fills, over resources that differ in stroke alpha alone, have the
same flag, the same warnings and the same depth, and their nodes differ in stroke alpha alone. -/
theorem ofTokens_eq_of_fillsOnly {rel : σ → τ → Prop} {r : Resources σ} {r' : Resources τ}
    (agree : r.AgreeButStroke rel r') (collectsWarnings : Bool) {tokens : List Token}
    (fills : ∀ c ∈ Token.commands [] tokens, c.FillsOnly) (m : σ) (m' : τ) (hm : rel m m') :
    let model := (ofTokens r collectsWarnings tokens m).1
    let model' := (ofTokens r' collectsWarnings tokens m').1
    model.containsTransparency = model'.containsTransparency ∧
      model.warnings = model'.warnings ∧ model.allWarnings = model'.allWarnings ∧
      model.stackDepth = model'.stackDepth ∧
      model.nodes.map Node.eraseStroke = model'.nodes.map Node.eraseStroke := by
  intro model model'
  have same : model.AgreeButStroke model' :=
    ofTokens_agreeButStroke agree collectsWarnings tokens hm
  have flag : model.containsTransparency = model'.containsTransparency := by
    rw [flag_eq_of_fillsOnly r collectsWarnings fills m,
      flag_eq_of_fillsOnly r' collectsWarnings fills m', same.nodes]
  exact ⟨flag, same.warnings, same.allWarnings, same.stackDepth, same.nodes⟩

def strokedTable (alpha : Option Float) : ResourceTable where
  extGStates := [("GS", { strokeAlpha := alpha, fillAlpha := some 1.0 })]
  broken := ["Lost"]

/-- A stream that fills under the dictionary, shows text in a mode that only clips, restores more
than it saved and names resources that are lost. -/
def fillingTokens : List Token :=
  [.operand (.name "GS"), .operator "gs", .operator "q", .operand (.integer 7), .operator "Tr",
    .operand (.literal [0x41]), .operator "Tj", .operator "Q", .operator "Q", .stray ")",
    .operand (.name "Lost"), .operator "Do", .operator "f"]

/-- One more operator, which strokes, and the flag depends on the stroke alpha. -/
theorem ofTokens_eq_of_fillsOnly_strokedTable :
    (∀ c ∈ Token.commands [] fillingTokens, c.FillsOnly) ∧
      (ofTokens (strokedTable none).resources true fillingTokens ()).1.containsTransparency =
        (ofTokens (strokedTable (some 0.5)).resources true fillingTokens
          ()).1.containsTransparency ∧
      (ofTokens (strokedTable none).resources true (fillingTokens ++ [.operator "S"])
        ()).1.containsTransparency = false ∧
      (ofTokens (strokedTable (some 0.5)).resources true (fillingTokens ++ [.operator "S"])
        ()).1.containsTransparency = true := by
  have fills : ∀ c ∈ Token.commands [] fillingTokens, c.FillsOnly := by decide
  have agree : ((strokedTable none).resources (σ := Unit)).AgreeButStroke (fun _ _ => True)
      ((strokedTable (some 0.5)).resources (σ := Unit)) :=
    ResourceTable.agreeButStroke { broken := ["Lost"] } rfl
  have same := ofTokens_eq_of_fillsOnly agree true fills () () trivial
  exact ⟨fills, same.1, by decide +kernel, by decide +kernel⟩

end Model

end PdfContent
