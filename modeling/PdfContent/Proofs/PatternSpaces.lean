import PdfContent.Proofs.StateChanges

/-!
Patterns and the color spaces they belong to. `scn` and `SCN` select a pattern only under a space
of patterns, and what replaces the space drops the pattern with it. So no state has a pattern
beside another space, and a node links to a pattern exactly when the state it carries has one.
-/

namespace PdfContent

def Paint.Matched (p : Paint) : Prop :=
  ∀ pattern ∈ p.pattern, p.colorSpace.isPattern = true

def GraphicsState.Matched (gs : GraphicsState) : Prop := ∀ side, (gs.paint side).Matched

def LinkKey.colorSpace : Side → LinkKey
  | .fill => .fillColorSpace
  | .stroke => .strokeColorSpace

namespace GraphicsState

variable {gs : GraphicsState}

theorem paint_setPaint (gs : GraphicsState) (side other : Side) (p : Paint) :
    (gs.setPaint side p).paint other = if side = other then p else gs.paint other := by
  cases side <;> cases other <;> rfl

theorem paint_selectColorSpace (gs : GraphicsState) (side : Side) (space : ColorSpace) :
    ((gs.selectColorSpace side space).paint side).colorSpace = space := by
  rw [selectColorSpace, paint_setPaint, if_pos rfl]

theorem overlay_colorSpace (gs : GraphicsState) (ext : ExtGState) (side : Side) :
    ((gs.overlay ext).paint side).colorSpace = (gs.paint side).colorSpace := by
  unfold overlay overlayFont
  cases ext.font <;> cases side <;> rfl

theorem overlay_pattern (gs : GraphicsState) (ext : ExtGState) (side : Side) :
    ((gs.overlay ext).paint side).pattern = (gs.paint side).pattern := by
  unfold overlay overlayFont
  cases ext.font <;> cases side <;> rfl

namespace Matched

theorem start : ({} : GraphicsState).Matched := by
  intro side pattern found
  cases side <;> cases found

theorem setPaint (h : gs.Matched) (side : Side) {p : Paint} (hp : p.Matched) :
    (gs.setPaint side p).Matched := by
  intro other
  rw [paint_setPaint]
  split
  · exact hp
  · exact h other

theorem of_paints (h : gs.Matched) {gs' : GraphicsState} (fill : gs'.fill = gs.fill)
    (stroke : gs'.stroke = gs.stroke) : gs'.Matched := by
  intro side
  cases side with
  | fill =>
    change gs'.fill.Matched
    rw [fill]
    exact h .fill
  | stroke =>
    change gs'.stroke.Matched
    rw [stroke]
    exact h .stroke

theorem selectColorSpace (h : gs.Matched) (side : Side) (space : ColorSpace) :
    (gs.selectColorSpace side space).Matched := by
  refine h.setPaint side ?_
  intro pattern found
  cases found

theorem selectPattern (h : gs.Matched) {side : Side}
    (under : (gs.paint side).colorSpace.isPattern = true) (pattern : Option Pattern) :
    (gs.selectPattern side pattern).Matched :=
  h.setPaint side fun _ _ => under

theorem overlay (h : gs.Matched) (ext : ExtGState) : (gs.overlay ext).Matched := by
  intro side pattern found
  rw [overlay_pattern] at found
  rw [overlay_colorSpace]
  exact h side pattern found

end Matched

end GraphicsState

theorem LiveChange.matched {σ : Type} {r : Resources σ} {m : σ} {gs gs' : GraphicsState}
    (change : LiveChange r m gs gs') (h : gs.Matched) : gs'.Matched := by
  cases change with
  | none => exact h
  | colorSpace side space => exact h.selectColorSpace side space
  | pattern side pattern under => exact h.selectPattern under pattern
  | extGState found => exact h.overlay _
  -- The rest leaves both paints alone.
  | font selection => exact h.of_paints rfl rfl
  | renderingMode mode => exact h.of_paints rfl rfl
  | noXObject => exact h.of_paints rfl rfl
  | xobject found => exact h.of_paints rfl rfl

namespace Node

variable {n : Node} {s : GraphicsState}

theorem linked_colorSpace (hs : s ∈ n.state) (side : Side) :
    n.linked (.colorSpace side) = [(s.paint side).link] := by
  have own : n.state = some s := hs
  cases side with
  | fill => simp [LinkKey.colorSpace, linked, own, GraphicsState.paint]
  | stroke => simp [LinkKey.colorSpace, linked, own, GraphicsState.paint]

end Node

namespace Paint.Matched

variable {p : Paint}

theorem link_eq_pattern_iff (h : p.Matched) (pattern : Pattern) :
    p.link = .pattern pattern ↔ p.pattern = some pattern := by
  unfold link
  cases found : p.pattern with
  | none => simp
  | some own =>
    have space := h own found
    simp [space]

theorem link_of_none (none : p.pattern = .none) : p.link = .colorSpace p.colorSpace := by
  simp [link, none]

end Paint.Matched

namespace Interpreter

/-- In no state that an interpreter holds or hands out does a pattern stand beside another space.
For each side of the painting a node links to the pattern that its state has there, and to the
color space where there is none. -/
theorem Reachable.patterns_matched {i : Interpreter} (h : i.Reachable) :
    i.state.Matched ∧ (∀ gs ∈ i.context.stack.saved, gs.Matched) ∧
      ∀ {σ : Type} (r : Resources σ) (name : String) (operands : List Operand) (m : σ),
        ∀ s ∈ (i.step r name operands m).1.1.state, s.Matched ∧ ∀ side,
          (∀ pattern, (i.step r name operands m).1.1.linked (.colorSpace side) =
            [.pattern pattern] ↔ (s.paint side).pattern = some pattern) ∧
          ((s.paint side).pattern = none →
            (i.step r name operands m).1.1.linked (.colorSpace side) =
              [.colorSpace (s.paint side).colorSpace]) := by
  have all {j : Interpreter} (hj : j.Reachable) : j.context.stack.All GraphicsState.Matched :=
    hj.stack_all .start fun _ _ _ _ change => change.matched
  refine ⟨(all h).live, (all h).saved, fun r name operands m s hs => ?_⟩
  have own : s.Matched := by
    rw [eq_of_mem_step_state hs]
    exact (all (h.step r name operands m)).live
  refine ⟨own, fun side => ?_⟩
  rw [Node.linked_colorSpace hs]
  constructor
  · intro pattern
    rw [List.singleton_inj]
    exact (own side).link_eq_pattern_iff pattern
  · intro none
    rw [Paint.Matched.link_of_none none]

def stripes : Pattern := ⟨"P", .tiling 1 1⟩

def stripedTable : ResourceTable where
  patterns := [("P", stripes)]

def stripedCommands : List Command :=
  [⟨"cs", [.name "Pattern"]⟩, ⟨"scn", [.name "P"]⟩, ⟨"q", []⟩, ⟨"CS", [.name "Pattern"]⟩,
    ⟨"SCN", [.name "Lost"]⟩]

def stripedRun : Interpreter := (run stripedTable.resources ({}, ()) stripedCommands).1

theorem Reachable.patterns_matched_stripedRun :
    stripedRun.Reachable ∧
      (stripedRun.step stripedTable.resources "B" [] ()).1.1.linked (.colorSpace .fill) =
        [.pattern stripes] ∧
      (stripedRun.step stripedTable.resources "B" [] ()).1.1.linked (.colorSpace .stroke) =
        [.colorSpace (.pattern none)] := by
  have reachable : stripedRun.Reachable := (Reachable.start true).run stripedTable.resources () _
  obtain ⟨-, -, nodes⟩ := patterns_matched reachable
  obtain ⟨-, links⟩ := nodes stripedTable.resources "B" [] () stripedRun.state rfl
  exact ⟨reachable, ((links .fill).1 stripes).2 rfl, (links .stroke).2 rfl⟩

end Interpreter

end PdfContent
