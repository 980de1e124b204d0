import PdfContent.Proofs.StateParts

/-!
Parameter dictionaries one after the other. Each parameter of the graphics state ends as the last
dictionary that gives it says, and as it was where none does; the soft mask may be given as cleared.
So a dictionary changes nothing that it has just set, and two that give nothing in common may come
in either order.
-/

namespace PdfContent

variable {σ α : Type}

/-- A parameter of the graphics state that dictionaries may give. A dictionary that gives it sets
it, and every other leaves it alone. -/
structure Parameter (α : Type) where
  view : GraphicsState → α
  given : ExtGState → Option α
  view_overlay : ∀ gs ext, view (gs.overlay ext) = (given ext).getD (view gs)

namespace Parameter

def font : Parameter (Option String × Float) where
  view gs := (gs.fontName, gs.fontSize)
  given ext := ext.font.map fun font => (some font.name, font.size)
  view_overlay gs ext := by
    unfold GraphicsState.overlay GraphicsState.overlayFont
    cases ext.font <;> rfl

def blendMode : Parameter (Option BlendMode) where
  view := GraphicsState.blendMode
  given ext := ext.blendMode.map some
  view_overlay gs ext := by
    unfold GraphicsState.overlay GraphicsState.overlayFont GraphicsState.overlayTransparency
    cases ext.blendMode <;> cases ext.font <;> rfl

def softMask : Parameter (Option SoftMask) where
  view := GraphicsState.softMask
  given ext :=
    match ext.softMask with
    | some mask => some (some mask)
    | none => if ext.softMaskCleared then some none else none
  view_overlay gs ext := by
    have kept : (gs.overlayFont ext).softMask = gs.softMask := by
      unfold GraphicsState.overlayFont
      cases ext.font <;> rfl
    change GraphicsState.maskAfter (gs.overlayFont ext).softMask ext = _
    rw [kept, GraphicsState.maskAfter]
    cases ext.softMask with
    | some mask => rfl
    | none => cases ext.softMaskCleared <;> rfl

def alpha (side : Side) : Parameter Float where
  view gs := (gs.paint side).alpha
  given ext :=
    match side with
    | .fill => ext.fillAlpha
    | .stroke => ext.strokeAlpha
  view_overlay gs ext := by
    unfold GraphicsState.overlay GraphicsState.overlayFont
    cases side <;> cases ext.font <;> rfl

variable (p : Parameter α)

def last? (exts : List ExtGState) : Option α := exts.reverse.findSome? p.given

theorem last?_cons (ext : ExtGState) (exts : List ExtGState) :
    p.last? (ext :: exts) = (p.last? exts).or (p.given ext) := by
  rw [last?, last?, List.reverse_cons, List.findSome?_append]
  simp

theorem view_overlays (exts : List ExtGState) (gs : GraphicsState) :
    p.view (exts.foldl GraphicsState.overlay gs) = (p.last? exts).getD (p.view gs) := by
  induction exts generalizing gs with
  | nil => rfl
  | cons ext exts ih =>
    rw [List.foldl_cons, ih, p.view_overlay, p.last?_cons]
    cases p.last? exts <;> rfl

theorem view_overlay_twice (gs : GraphicsState) (ext : ExtGState) :
    p.view ((gs.overlay ext).overlay ext) = p.view (gs.overlay ext) := by
  rw [p.view_overlay, p.view_overlay]
  cases p.given ext <;> rfl

theorem view_overlay_comm {a b : ExtGState} (apart : p.given a = none ∨ p.given b = none)
    (gs : GraphicsState) :
    p.view ((gs.overlay a).overlay b) = p.view ((gs.overlay b).overlay a) := by
  simp only [p.view_overlay]
  cases apart with
  | inl none => rw [none]; rfl
  | inr none => rw [none]; rfl

end Parameter

structure ExtGState.Apart (a b : ExtGState) : Prop where
  font : a.font = none ∨ b.font = none
  blendMode : a.blendMode = none ∨ b.blendMode = none
  softMask : a.softMask = none ∧ a.softMaskCleared = false ∨
    b.softMask = none ∧ b.softMaskCleared = false
  fillAlpha : a.fillAlpha = none ∨ b.fillAlpha = none
  strokeAlpha : a.strokeAlpha = none ∨ b.strokeAlpha = none

namespace Parameter

theorem font_given_none {ext : ExtGState} (h : ext.font = none) : font.given ext = none := by
  simp [font, h]

theorem blendMode_given_none {ext : ExtGState} (h : ext.blendMode = none) :
    blendMode.given ext = none := by
  simp [blendMode, h]

theorem softMask_given_none {ext : ExtGState}
    (h : ext.softMask = none ∧ ext.softMaskCleared = false) : softMask.given ext = none := by
  simp [softMask, h.1, h.2]

end Parameter

namespace StatePart

variable {gs₁ gs₂ gs₃ : GraphicsState} {part : StatePart}

theorem same_symm (h : part.Same gs₁ gs₂) : part.Same gs₂ gs₁ := by
  cases part <;> exact Eq.symm h

theorem same_trans (h : part.Same gs₁ gs₂) (h' : part.Same gs₂ gs₃) : part.Same gs₁ gs₃ := by
  cases part <;> exact Eq.trans h h'

end StatePart

namespace GraphicsState

open StatePart

theorem eq_of_parameters {gs gs' : GraphicsState}
    (font : Parameter.font.view gs = Parameter.font.view gs')
    (blendMode : gs.blendMode = gs'.blendMode) (softMask : gs.softMask = gs'.softMask)
    (alpha : ∀ side, (gs.paint side).alpha = (gs'.paint side).alpha)
    (others : ∀ part, part ∉ extGStateParts → part.Same gs gs') : gs = gs' := by
  obtain ⟨name, size⟩ := Prod.mk.inj font
  apply eq_of_same
  intro part
  cases part with
  | fontName => exact name
  | fontSize => exact size
  | blendMode => exact blendMode
  | softMask => exact softMask
  | alpha side => exact alpha side
  | _ => exact others _ (by simp [extGStateParts, fontParts])

theorem overlays_same (exts : List ExtGState) (gs : GraphicsState) {part : StatePart}
    (other : part ∉ extGStateParts) : part.Same gs (exts.foldl overlay gs) := by
  induction exts generalizing gs with
  | nil => exact same_refl gs part
  | cons ext exts ih => exact same_trans (same_overlay ext other) (ih (gs.overlay ext))

/-- What a list of dictionaries makes of a state: each parameter as the last one that gives it says
or as it was, and everything else as it was. -/
structure Overlaid (exts : List ExtGState) (gs gs' : GraphicsState) : Prop where
  font : (gs'.fontName, gs'.fontSize) =
    (Parameter.font.last? exts).getD (gs.fontName, gs.fontSize)
  blendMode : gs'.blendMode = (Parameter.blendMode.last? exts).getD gs.blendMode
  softMask : gs'.softMask = (Parameter.softMask.last? exts).getD gs.softMask
  alpha : ∀ side,
    (gs'.paint side).alpha = ((Parameter.alpha side).last? exts).getD (gs.paint side).alpha
  others : ∀ part, part ∉ extGStateParts → part.Same gs gs'

theorem overlaid_foldl (exts : List ExtGState) (gs : GraphicsState) :
    Overlaid exts gs (exts.foldl overlay gs) where
  font := Parameter.font.view_overlays exts gs
  blendMode := Parameter.blendMode.view_overlays exts gs
  softMask := Parameter.softMask.view_overlays exts gs
  alpha side := (Parameter.alpha side).view_overlays exts gs
  others _ other := overlays_same exts gs other

theorem overlay_twice (gs : GraphicsState) (ext : ExtGState) :
    (gs.overlay ext).overlay ext = gs.overlay ext := by
  apply eq_of_parameters
  · exact Parameter.font.view_overlay_twice gs ext
  · exact Parameter.blendMode.view_overlay_twice gs ext
  · exact Parameter.softMask.view_overlay_twice gs ext
  · exact fun side => (Parameter.alpha side).view_overlay_twice gs ext
  · exact fun part other => same_symm (same_overlay ext other)

theorem overlay_comm {a b : ExtGState} (apart : a.Apart b) (gs : GraphicsState) :
    (gs.overlay a).overlay b = (gs.overlay b).overlay a := by
  apply eq_of_parameters
  · have none := apart.font.imp Parameter.font_given_none Parameter.font_given_none
    exact Parameter.font.view_overlay_comm none gs
  · have none := apart.blendMode.imp Parameter.blendMode_given_none Parameter.blendMode_given_none
    exact Parameter.blendMode.view_overlay_comm none gs
  · have none := apart.softMask.imp Parameter.softMask_given_none Parameter.softMask_given_none
    exact Parameter.softMask.view_overlay_comm none gs
  · intro side
    cases side with
    | fill => exact (Parameter.alpha .fill).view_overlay_comm apart.fillAlpha gs
    | stroke => exact (Parameter.alpha .stroke).view_overlay_comm apart.strokeAlpha gs
  · intro part other
    exact same_trans (same_symm (overlays_same [a, b] gs other)) (overlays_same [b, a] gs other)

end GraphicsState

namespace Interpreter

open Resolving GraphicsState

def dictionary (r : Resources σ) (operands : List Operand) (m : σ) : Option ExtGState × σ :=
  match operands.head?.bind Operand.name? with
  | some name => ((r.extGState name m).1.value?, (r.extGState name m).2)
  | none => (none, m)

def dictionaries (r : Resources σ) : List (List Operand) → σ → List ExtGState
  | [], _ => []
  | operands :: rest, m =>
    let found := dictionary r operands m
    found.1.toList ++ dictionaries r rest found.2

theorem extGState_memory (r : Resources σ) (operands : List Operand) (c : Context) (m : σ) :
    (extGState r operands c m).memory = (dictionary r operands m).2 := by
  simp only [extGState, dictionary, bind_memory, nameOperand_value, nameOperand_memory]
  cases operands.head?.bind Operand.name? with
  | none => rfl
  | some name =>
    simp only [bind_memory, lookup_value, lookup_memory]
    cases (r.extGState name m).1.value? <;> rfl

theorem step_dictionary (r : Resources σ) (i : Interpreter) (operands : List Operand) (m : σ) :
    (i.step r "gs" operands m).1.2.context.stack =
        i.context.stack.mapLive (fun gs =>
          (dictionary r operands m).1.toList.foldl overlay gs) ∧
      (i.step r "gs" operands m).2 = (dictionary r operands m).2 := by
  refine ⟨?_, extGState_memory r operands i.context m⟩
  change (extGState r operands i.context m).value.context.stack = _
  rw [extGState_stack, dictionary]
  cases operands.head?.bind Operand.name? with
  | none => rfl
  | some name =>
    simp only [Option.bind_some]
    cases (r.extGState name m).1.value? <;> rfl

theorem run_stack (r : Resources σ) (calls : List (List Operand)) (i : Interpreter) (m : σ) :
    (run r (i, m) (calls.map (Command.mk "gs"))).1.context.stack =
      i.context.stack.mapLive fun gs => (dictionaries r calls m).foldl overlay gs := by
  induction calls generalizing i m with
  | nil => rfl
  | cons operands calls ih =>
    obtain ⟨stack, memory⟩ := step_dictionary r i operands m
    change (run r ((i.step r "gs" operands m).1.2, (i.step r "gs" operands m).2) _).1.context.stack
      = _
    rw [ih, stack, memory]
    simp only [dictionaries, List.foldl_append]
    rfl

/-- A run of `gs` overlays the live state with the dictionaries it finds and touches no saved one.
However many they are, each parameter ends as the last of them that gives it says. A dictionary
right behind itself changes nothing, and two that give nothing in common commute. -/
theorem run_parameters (r : Resources σ) (i : Interpreter) (m : σ) :
    (∀ calls, (run r (i, m) (calls.map (Command.mk "gs"))).1.context.stack =
      i.context.stack.mapLive fun gs =>
        (dictionaries r calls m).foldl overlay gs) ∧
    (∀ gs exts, Overlaid exts gs (exts.foldl overlay gs)) ∧
    (∀ gs ext, (overlay gs ext).overlay ext = overlay gs ext) ∧
    ∀ gs a b, ExtGState.Apart a b →
      (overlay gs a).overlay b = (overlay gs b).overlay a := by
  refine ⟨?_, ?_, ?_, ?_⟩
  · exact fun calls => run_stack r calls i m
  · exact fun gs exts => overlaid_foldl exts gs
  · exact overlay_twice
  · exact fun gs a b apart => overlay_comm apart gs

def maskedStroke : ExtGState where
  softMask := some ⟨"Luminosity", true⟩
  strokeAlpha := some 0.5

def blendedFont : ExtGState where
  font := some ⟨"F", 9.0⟩
  blendMode := some (.name "Multiply")
  fillAlpha := some 0.25

def clearedMask : ExtGState where
  softMaskCleared := true

def dictionaryTable : ResourceTable where
  extGStates := [("M", maskedStroke), ("B", blendedFont), ("C", clearedMask)]

def dictionaryCalls : List (List Operand) :=
  [[.name "M"], [.name "Lost"], [.name "B"], [.integer 1], [.name "C"]]

def dictionaryRun : Interpreter :=
  (run dictionaryTable.resources (midStream, ()) (dictionaryCalls.map (Command.mk "gs"))).1

theorem run_parameters_dictionaryTable :
    maskedStroke.Apart blendedFont ∧
      (midStream.state.overlay maskedStroke).overlay blendedFont =
        (midStream.state.overlay blendedFont).overlay maskedStroke ∧
      dictionaries dictionaryTable.resources dictionaryCalls () =
        [maskedStroke, blendedFont, clearedMask] ∧
      dictionaryRun.state.softMask = none ∧ dictionaryRun.state.stroke.alpha = 0.5 ∧
      (dictionaryRun.state.fontName, dictionaryRun.state.fontSize) = (some "F", 9.0) ∧
      dictionaryRun.context.stack.saved = [{ fontSize := 12.0 }] := by
  have apart : maskedStroke.Apart blendedFont :=
    ⟨.inl rfl, .inl rfl, .inr ⟨rfl, rfl⟩, .inl rfl, .inr rfl⟩
  have found : dictionaries dictionaryTable.resources dictionaryCalls () =
      [maskedStroke, blendedFont, clearedMask] := rfl
  obtain ⟨runs, ends, -, commutes⟩ := run_parameters dictionaryTable.resources midStream ()
  have stack := runs dictionaryCalls
  rw [found] at stack
  have live : dictionaryRun.state = _ := congrArg StateStack.live stack
  have all := ends midStream.state [maskedStroke, blendedFont, clearedMask]
  rw [live]
  exact ⟨apart, commutes midStream.state _ _ apart, found, all.softMask, all.alpha .stroke,
    all.font, congrArg StateStack.saved stack⟩

end Interpreter

end PdfContent
