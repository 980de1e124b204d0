import PdfContent.Document.Analysis
import PdfContent.Proofs.EndedRuns

/-!
What interpreting streams keeps of a session. A property of sessions that loading a color space or
a font keeps, and that does not depend on the remembered separations and forms, lasts through a
stream however it ends: all other lookups touch nothing else, and a form that is looked into is a
stream again, one level further down.
-/

namespace PdfContent.Document

def nestedAt (doc : Document) : Nat → Nested
  | 0 => none
  | depth + 1 => some (doc.streamResources depth)

theorem streamResources_eq (doc : Document) (depth : Nat) (scope : Scope) :
    doc.streamResources depth scope = scope.resourcesWith doc (doc.nestedAt depth) := by
  cases depth <;> rfl

theorem interpret_error {r : Resources Memory} {data : Bytes} {fault : SyntaxFault}
    (h : Token.ofBytes data = .error fault) (m : Memory) :
    interpret r data m = (.error (.stream fault), m) := by
  simp only [interpret, h]

theorem interpret_cases {motive : Except Failure Model × Memory → Prop} {r : Resources Memory}
    {data : Bytes} {tokens : List Token} (ht : Token.ofBytes data = .ok tokens) (m : Memory)
    (crash : ∀ read cause, read <+: tokens →
      (Model.ofTokens r m.session.options.collectsWarnings read m).2.crash = some cause →
      motive (.error (.font (.crash cause)),
        (Model.ofTokens r m.session.options.collectsWarnings read m).2))
    (whole : (Model.ofTokens r m.session.options.collectsWarnings tokens m).2.crash = none →
      motive (.ok (Model.ofTokens r m.session.options.collectsWarnings tokens m).1,
        (Model.ofTokens r m.session.options.collectsWarnings tokens m).2)) :
    motive (interpret r data m) := by
  obtain ⟨read, front, same, all⟩ := Model.ofTokensWhile_eq Memory.goes r
    m.session.options.collectsWarnings tokens m
  simp only [interpret, ht, same]
  cases hc : (Model.ofTokens r m.session.options.collectsWarnings read m).2.crash with
  | some cause => exact crash read cause front hc
  | none =>
    obtain rfl := all (by rw [Memory.goes, hc]; rfl)
    exact whole hc

@[simp] theorem noting_fst {α : Type} (result : Except Failure α × Memory) :
    (Memory.noting result).1 = result.1 := by
  rcases result with ⟨_ | _, m⟩ <;> rfl

@[simp] theorem noting_session {α : Type} (result : Except Failure α × Memory) :
    (Memory.noting result).2.session = result.2.session := by
  rcases result with ⟨_ | _, m⟩ <;> rfl

/-- A property of sessions that only loading a color space or a font might affect, and does not. -/
structure Lasting (doc : Document) (P : Session → Prop) : Prop where
  colorSpace : ∀ (scope : Scope) name (m : Memory),
    P m.session → P (scope.colorSpace doc name m).2.session
  font : ∀ (scope : Scope) name (m : Memory), P m.session → P (scope.font doc name m).2.session
  separations : ∀ s separations, P s → P { s with separations }
  forms : ∀ s forms, P s → P { s with forms }

theorem interpret_keeps {P : Memory → Prop} {r : Resources Memory} (keeps : r.Keeps P)
    (xobject : ∀ name m, P m → P (r.xobject name m).2) (data : Bytes) {m : Memory} (h : P m) :
    P (interpret r data m).2 := by
  cases ht : Token.ofBytes data with
  | error fault =>
    rw [interpret_error ht]
    exact h
  | ok tokens =>
    have read : ∀ read, P (Model.ofTokens r m.session.options.collectsWarnings read m).2 := by
      intro read
      refine Model.ofTokens_induction (P := fun _ m => P m) r _ read m h ?_
      intro nodes i name operands m' hm _
      cases hn : (i.step r name operands m').1.1.paintedName? with
      | none => exact Interpreter.step_keeps keeps i hn hm
      | some found =>
        rw [Interpreter.step_memory_of_painted r i hn]
        exact xobject found m' hm
    exact interpret_cases (motive := fun result => P result.2) ht m (fun front _ _ _ => read front)
      fun _ => read tokens

namespace Lasting

variable {doc : Document} {P : Session → Prop}

theorem resourcesWith (h : doc.Lasting P) (nested : Nested) (scope : Scope) :
    (scope.resourcesWith doc nested).Keeps fun m => P m.session where
  colorSpace := h.colorSpace scope
  font := h.font scope
  pattern name m hm := by
    change P (scope.pattern doc name m).2.session
    unfold Scope.pattern
    split
    · exact hm
    · exact h.separations _ _ hm
  shading name m hm := by
    change P (scope.shading doc name m).2.session
    unfold Scope.shading
    split
    · exact hm
    · exact h.separations _ _ hm
  extGState name m hm := by
    change P (scope.extGState doc name m).2.session
    unfold Scope.extGState
    split
    · exact hm
    · split <;> exact hm
  defaultColorSpace family := h.colorSpace scope family.defaultName

theorem enterForm (h : doc.Lasting P) {nested : Nested}
    (below : ∀ resources, nested = some resources → ∀ scope data m,
      P m.session → P (interpret (resources scope) data m).2.session)
    (scope : Scope) (id : Option ObjectId) (form : Dictionary) (data : Bytes) {m : Memory}
    (hm : P m.session) : P (doc.enterForm nested scope id form data m).2.session := by
  have content : ∀ (inner : Scope) (m : Memory), P m.session →
      P (doc.formTransparency nested inner form data m).2.session := by
    intro inner m hm
    unfold formTransparency
    split
    · exact hm
    · split
      · exact hm
      · exact below _ rfl inner _ m hm
  unfold Document.enterForm
  dsimp only
  have inside := content
    { resources := (doc.dictionary? form "Resources").or scope.resources
      openForms := id :: scope.openForms } { m with truncated := false } hm
  split
  · rename_i failure after hr
    rw [hr] at inside
    exact inside
  · rename_i flag after hr
    rw [hr] at inside
    split
    · split
      · exact h.forms _ _ inside
      · exact inside
    · exact inside

theorem xobject (h : doc.Lasting P) {nested : Nested}
    (below : ∀ resources, nested = some resources → ∀ scope data m,
      P m.session → P (interpret (resources scope) data m).2.session)
    (scope : Scope) (name : String) {m : Memory} (hm : P m.session) :
    P (scope.xobject doc nested name m).2.session := by
  have form : ∀ id entries data, P (doc.readForm nested scope id entries data m).2.session := by
    intro id entries data
    unfold readForm
    split
    · exact hm
    · split
      · exact hm
      · exact h.enterForm below scope id entries data hm
  unfold Scope.xobject
  split
  · exact hm
  · rename_i id entries data he
    change P (doc.readXObject nested scope name id entries data m).2.session
    unfold readXObject
    split
    · exact h.separations _ _ hm
    · exact form id entries data
    · exact hm
    · exact hm
  · exact hm

theorem interpret (h : doc.Lasting P) (depth : Nat) (scope : Scope) (data : Bytes) {m : Memory}
    (hm : P m.session) :
    P (Document.interpret (doc.streamResources depth scope) data m).2.session := by
  induction depth generalizing scope data m with
  | zero =>
    refine interpret_keeps (P := fun m => P m.session) (h.resourcesWith none scope) ?_ data hm
    intro name m hm
    exact h.xobject (fun resources hr => by cases hr) scope name hm
  | succ depth ih =>
    refine interpret_keeps (P := fun m => P m.session)
      (h.resourcesWith (some (doc.streamResources depth)) scope) ?_ data hm
    intro name m hm
    refine h.xobject (fun resources hr => ?_) scope name hm
    cases hr
    exact fun inner data m hm => ih inner data hm

theorem step (h : doc.Lasting P) (depth : Nat)
    (scope : Scope) (i : Interpreter) (name : String) (operands : List Operand) {m : Memory}
    (hm : P m.session) :
    P (i.step (doc.streamResources depth scope) name operands m).2.session := by
  have below : ∀ resources, doc.nestedAt depth = some resources → ∀ scope data (m : Memory),
      P m.session → P (Document.interpret (resources scope) data m).2.session := by
    intro resources nested
    cases depth with
    | zero => cases nested
    | succ depth =>
      cases nested
      exact fun inner data _ hm => h.interpret depth inner data hm
  rw [streamResources_eq]
  cases painted : (i.step (scope.resourcesWith doc (doc.nestedAt depth)) name operands
      m).1.1.paintedName? with
  | none => exact Interpreter.step_keeps (h.resourcesWith _ scope) i painted hm
  | some found =>
    rw [Interpreter.step_memory_of_painted _ i painted]
    exact h.xobject below scope found hm

end Lasting

theorem lasting_trivial (doc : Document) : doc.Lasting fun _ => True where
  colorSpace _ _ _ _ := trivial
  font _ _ _ _ := trivial
  separations _ _ _ := trivial
  forms _ _ _ := trivial

end PdfContent.Document
