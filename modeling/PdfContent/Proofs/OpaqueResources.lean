import PdfContent.Proofs.StateChanges

/-!
Streams over resources without transparency. As long as every parameter dictionary and every
external object that a lookup can return leaves painting opaque, the live state and all saved ones
stay so, and no painting operator finds anything transparent.
-/

namespace PdfContent

variable {σ : Type}

structure ExtGState.IsOpaque (ext : ExtGState) : Prop where
  softMask : ext.softMask = none
  blendMode : ∀ mode ∈ ext.blendMode, mode = .name "Normal" ∨ mode = .array ["Normal"]
  strokeAlpha : ∀ alpha ∈ ext.strokeAlpha, ¬ alpha < 1.0
  fillAlpha : ∀ alpha ∈ ext.fillAlpha, ¬ alpha < 1.0

structure GraphicsState.IsOpaque (gs : GraphicsState) : Prop where
  softMask : gs.softMask = none
  blendMode : ∀ mode ∈ gs.blendMode, mode.isNormal = true
  fillAlpha : ¬ gs.fill.alpha < 1.0
  strokeAlpha : ¬ gs.stroke.alpha < 1.0
  xobject : ∀ x ∈ gs.xobject, x.isTransparent = false

/-- Whatever the lookups return, from a memory on and however they follow one another, is opaque. -/
structure Resources.FindsOpaque (r : Resources σ) (m₀ : σ) : Prop where
  extGState : ∀ name m ext, r.Leads m₀ m → (r.extGState name m).1 = .ok (some ext) → ext.IsOpaque
  xobject : ∀ name m x, r.Leads m₀ m → (r.xobject name m).1 = .ok (some x) →
    x.isTransparent = false

namespace GraphicsState.IsOpaque

variable {gs : GraphicsState}

theorem start : ({} : GraphicsState).IsOpaque where
  softMask := rfl
  blendMode := by rintro mode ⟨⟩
  fillAlpha := by decide
  strokeAlpha := by decide
  xobject := by rintro x ⟨⟩

theorem selectColorSpace (h : gs.IsOpaque) (side : Side) (space : ColorSpace) :
    (gs.selectColorSpace side space).IsOpaque := by
  cases side <;> exact ⟨h.softMask, h.blendMode, h.fillAlpha, h.strokeAlpha, h.xobject⟩

theorem selectPattern (h : gs.IsOpaque) (side : Side) (pattern : Option Pattern) :
    (gs.selectPattern side pattern).IsOpaque := by
  cases side <;> exact ⟨h.softMask, h.blendMode, h.fillAlpha, h.strokeAlpha, h.xobject⟩

theorem selectFont (h : gs.IsOpaque) (selection : FontSelection) :
    (gs.selectFont selection).IsOpaque :=
  ⟨h.softMask, h.blendMode, h.fillAlpha, h.strokeAlpha, h.xobject⟩

theorem overlayFont (h : gs.IsOpaque) (ext : ExtGState) : (gs.overlayFont ext).IsOpaque := by
  unfold GraphicsState.overlayFont
  split
  · exact h.selectFont _
  · exact h

theorem alpha_getD {alpha : Option Float} {current : Float} (given : ∀ a ∈ alpha, ¬ a < 1.0)
    (h : ¬ current < 1.0) : ¬ alpha.getD current < 1.0 := by
  cases alpha with
  | none => exact h
  | some a => exact given a rfl

theorem overlay (h : gs.IsOpaque) {ext : ExtGState} (he : ext.IsOpaque) :
    (gs.overlay ext).IsOpaque := by
  have hf := h.overlayFont ext
  constructor
  · change maskAfter (gs.overlayFont ext).softMask ext = none
    simp [maskAfter, he.softMask, hf.softMask]
  · intro mode hm
    cases hb : ext.blendMode with
    | none =>
      have hsame : (gs.overlay ext).blendMode = (gs.overlayFont ext).blendMode := by
        simp [GraphicsState.overlay, overlayTransparency, hb]
      exact hf.blendMode mode (hsame ▸ hm)
    | some given =>
      have hgiven : (gs.overlay ext).blendMode = some given := by
        simp [GraphicsState.overlay, overlayTransparency, hb]
      obtain rfl : given = mode := by simpa [hgiven] using hm
      rcases he.blendMode given hb with rfl | rfl <;> decide
  · exact alpha_getD he.fillAlpha hf.fillAlpha
  · exact alpha_getD he.strokeAlpha hf.strokeAlpha
  · exact hf.xobject

theorem holds_eq_false (h : gs.IsOpaque) (policy : TransparencyPolicy) :
    policy.holds gs = false := by
  have blends : gs.blends = false := by
    simp only [GraphicsState.blends, h.softMask, Option.isSome_none, Bool.false_or]
    cases hb : gs.blendMode with
    | none => rfl
    | some mode => simp [h.blendMode mode hb]
  have translucent : ∀ side, gs.isTranslucent side = false := by
    intro side
    cases side with
    | fill => simp [isTranslucent, blends, paint, h.fillAlpha]
    | stroke => simp [isTranslucent, blends, paint, h.strokeAlpha]
  have painted : gs.xobject.any XObject.isTransparent = false := by
    cases hx : gs.xobject with
    | none => rfl
    | some x => exact h.xobject x hx
  cases policy <;> simp [TransparencyPolicy.holds, blends, translucent, painted]

end GraphicsState.IsOpaque

theorem LiveChange.isOpaque {r : Resources σ} {m₀ m : σ} {gs gs' : GraphicsState}
    (change : LiveChange r m gs gs') (finds : r.FindsOpaque m₀) (leads : r.Leads m₀ m)
    (h : gs.IsOpaque) : gs'.IsOpaque := by
  cases change with
  | none => exact h
  | colorSpace side space => exact h.selectColorSpace side space
  | pattern side pattern => exact h.selectPattern side pattern
  | font selection => exact h.selectFont selection
  | renderingMode mode => exact ⟨h.softMask, h.blendMode, h.fillAlpha, h.strokeAlpha, h.xobject⟩
  | extGState found =>
    exact h.overlay (finds.extGState _ m _ leads (Found.value?_eq_some.1 found))
  | noXObject => exact ⟨h.softMask, h.blendMode, h.fillAlpha, h.strokeAlpha, by rintro x ⟨⟩⟩
  | xobject found =>
    refine ⟨h.softMask, h.blendMode, h.fillAlpha, h.strokeAlpha, ?_⟩
    rintro x ⟨⟩
    exact finds.xobject _ m _ leads (Found.value?_eq_some.1 found)

theorem Interpreter.step_isOpaque {r : Resources σ} {m₀ m : σ} (finds : r.FindsOpaque m₀)
    (leads : r.Leads m₀ m) {i : Interpreter}
    (h : i.context.stack.All GraphicsState.IsOpaque) (name : String) (operands : List Operand) :
    (i.step r name operands m).1.2.context.stack.All GraphicsState.IsOpaque :=
  step_all h (fun _ _ change hg => change.isOpaque finds leads hg) name operands

theorem Node.isTransparent_eq_false {n : Node} (h : ∀ s ∈ n.state, s.IsOpaque) :
    n.isTransparent = false := by
  cases hs : n.state with
  | none => simp [isTransparent, hs]
  | some s =>
    simp only [isTransparent, hs, Option.any_some]
    cases TransparencyPolicy.ofOperator? n.name s.renderingMode with
    | none => rfl
    | some policy => exact (h s hs).holds_eq_false policy

namespace Reading

structure StaysOpaque (r : Resources σ) (m₀ : σ) (reading : Reading × σ) : Prop where
  leads : r.Leads m₀ reading.2
  stack : reading.1.interpreter.context.stack.All GraphicsState.IsOpaque
  nodes : ∀ n ∈ reading.1.nodes.toList, n.isTransparent = false

variable {r : Resources σ} {m₀ : σ}

theorem StaysOpaque.feed {reading : Reading × σ} (h : StaysOpaque r m₀ reading)
    (finds : r.FindsOpaque m₀) (token : Token) :
    StaysOpaque r m₀ (Reading.feed r reading token) := by
  cases token with
  | operand value => exact ⟨h.leads, h.stack, h.nodes⟩
  | stray text =>
    refine ⟨h.leads, ?_, h.nodes⟩
    simp only [Reading.feed, skipStray_context]
    exact h.stack
  | operator name =>
    have stack := Interpreter.step_isOpaque finds h.leads h.stack name reading.1.operands.toList
    refine ⟨Interpreter.step_leads _ name _ h.leads, stack, ?_⟩
    intro n hn
    simp only [Reading.feed, Array.toList_push, List.mem_append, List.mem_singleton] at hn
    rcases hn with hn | rfl
    · exact h.nodes n hn
    · refine Node.isTransparent_eq_false fun s hs => ?_
      rw [Interpreter.eq_of_mem_step_state hs]
      exact stack.live

theorem StaysOpaque.foldl {reading : Reading × σ} (h : StaysOpaque r m₀ reading)
    (finds : r.FindsOpaque m₀) (tokens : List Token) :
    StaysOpaque r m₀ (tokens.foldl (Reading.feed r) reading) := by
  induction tokens generalizing reading with
  | nil => exact h
  | cons token tokens ih => exact ih (h.feed finds token)

end Reading

namespace ResourceTable

theorem mem_of_find {α : Type} {table : ResourceTable} {entries : List (String × α)} {name : String}
    {a : α} (h : table.find entries name = .ok (some a)) : (name, a) ∈ entries := by
  unfold find at h
  split at h
  · cases h
  · have hl : entries.lookup name = some a := Except.ok.inj h
    obtain ⟨front, rest, rfl, -⟩ := List.lookup_eq_some_iff.1 hl
    simp

theorem findsOpaque {table : ResourceTable} (exts : ∀ entry ∈ table.extGStates, entry.2.IsOpaque)
    (xobjects : ∀ entry ∈ table.xobjects, entry.2.isTransparent = false) (m : σ) :
    table.resources.FindsOpaque m where
  extGState _ _ _ _ found := exts _ (mem_of_find found)
  xobject _ _ _ _ found := xobjects _ (mem_of_find found)

end ResourceTable

namespace Model

/-- Over resources that return nothing transparent no stream is flagged, whatever its tokens. -/
theorem ofTokens_flag_eq_false {r : Resources σ} {m : σ} (finds : r.FindsOpaque m)
    (collectsWarnings : Bool) (tokens : List Token) :
    (ofTokens r collectsWarnings tokens m).1.containsTransparency = false := by
  have start : Reading.StaysOpaque r m ({ interpreter := { collectsWarnings } }, m) :=
    ⟨.refl, .start .start, by rintro n ⟨⟩⟩
  have finish := start.foldl finds tokens
  rw [ofTokens_flag, List.any_eq_false]
  intro n hn
  exact Bool.eq_false_iff.1 (finish.nodes n hn)

def plainParameters : ExtGState where
  blendMode := some (.array ["Normal"])
  softMaskCleared := true
  strokeAlpha := some 1.0
  fillAlpha := some 1.0

def plainImage : ImageXObject where
  width := 1
  height := 1
  bitsPerComponent := none
  colorSpace := none
  hasSoftMask := false
  softMaskInData := 0
  isImageMask := true
  filters := []

def plainTable : ResourceTable where
  extGStates := [("GS", plainParameters)]
  xobjects := [("Im", .image plainImage)]
  broken := ["Lost"]

def plainTokens : List Token :=
  [.operator "q", .operand (.name "GS"), .operator "gs", .operand (.name "Im"), .operator "Do",
    .operand (.name "Lost"), .operator "gs", .operand (.name "Lost"), .operator "Do",
    .operand (.integer 1), .operator "Tr", .operand (.literal [0x41]), .operator "Tj",
    .operator "Q", .operator "Q", .operator "B*"]

theorem ofTokens_flag_eq_false_plainTable :
    (plainTable.resources (σ := Unit)).FindsOpaque () ∧
      (ofTokens plainTable.resources true plainTokens ()).1.containsTransparency = false := by
  have finds : (plainTable.resources (σ := Unit)).FindsOpaque () := by
    refine ResourceTable.findsOpaque ?_ ?_ ()
    · intro entry hm
      obtain rfl : entry = ("GS", plainParameters) := List.mem_singleton.1 hm
      refine ⟨rfl, ?_, ?_, ?_⟩
      · rintro mode ⟨⟩
        exact .inr rfl
      · rintro alpha ⟨⟩
        decide
      · rintro alpha ⟨⟩
        decide
    · intro entry hm
      obtain rfl : entry = ("Im", .image plainImage) := List.mem_singleton.1 hm
      rfl
  exact ⟨finds, ofTokens_flag_eq_false finds true plainTokens⟩

end Model

end PdfContent
