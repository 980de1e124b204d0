import PdfContent.Proofs.SessionHistory
import PdfContent.Proofs.SilentRuns

/-!
Sessions that collect no warnings. The option is read each time a stream is interpreted, those of
forms included, and yet a session without it does what one with it does: it returns the same models
less their warnings, keeps the same, and fails alike.
-/

namespace PdfContent

variable {σ α : Type}

/-- A change of the memory that a lookup does not notice and hands on. -/
def Unnoticed (f : σ → σ) (find : σ → α × σ) : Prop :=
  ∀ m, find (f m) = ((find m).1, f (find m).2)

structure Resources.Unnoticed (f : σ → σ) (r : Resources σ) : Prop where
  colorSpace : ∀ name, PdfContent.Unnoticed f (r.colorSpace name)
  font : ∀ name, PdfContent.Unnoticed f (r.font name)
  pattern : ∀ name, PdfContent.Unnoticed f (r.pattern name)
  shading : ∀ name, PdfContent.Unnoticed f (r.shading name)
  xobject : ∀ name, PdfContent.Unnoticed f (r.xobject name)
  extGState : ∀ name, PdfContent.Unnoticed f (r.extGState name)
  defaultColorSpace : ∀ family, PdfContent.Unnoticed f (r.defaultColorSpace family)

section Runs

variable {f : σ → σ} {r : Resources σ} (hr : r.Unnoticed f)

include hr

theorem Resolving.Composed.unnoticed {fonts objects : Prop} {x : Resolving σ α}
    (h : Composed r fonts objects x) (m : σ) :
    x (f m) = ⟨(x m).value, (x m).issues, f (x m).memory⟩ := by
  have asked {β : Type} {find : σ → Found β × σ} (hf : PdfContent.Unnoticed f find) (m : σ) :
      ask find (f m) = ⟨(ask find m).value, (ask find m).issues, f (ask find m).memory⟩ := by
    simp only [ask, hf m]
  induction h generalizing m with
  | pure a => rfl
  | @bind α β x g _ _ first rest =>
    have next := rest (x m).value (x m).memory
    change Resolving.bind x g (f m) = _
    simp only [Resolving.bind, first m, next]
    rfl
  | note own description => rfl
  | colorSpace name => exact asked (hr.colorSpace name) m
  | font allowed name => exact asked (hr.font name) m
  | pattern name => exact asked (hr.pattern name) m
  | shading name => exact asked (hr.shading name) m
  | extGState name => exact asked (hr.extGState name) m
  | defaultColorSpace family => exact asked (hr.defaultColorSpace family) m
  | xobject allowed name => exact asked (hr.xobject name) m

theorem Interpreter.step_unnoticed (i : Interpreter) (name : String) (operands : List Operand) :
    PdfContent.Unnoticed f (i.step r name operands) := by
  intro m
  have composed := composed_perform r name operands i.context (Operation.ofName name)
  simp only [step, composed.unnoticed hr m]

theorem Reading.feed_unnoticed (reading : Reading) (token : Token) :
    PdfContent.Unnoticed f fun m => feed r (reading, m) token := by
  intro m
  cases token with
  | operand value => rfl
  | stray text => rfl
  | operator name =>
    have step := Interpreter.step_unnoticed hr reading.interpreter name reading.operands.toList m
    simp only [feed, step]

theorem Reading.foldl_unnoticed {goes : σ → Bool} (same : ∀ m, goes (f m) = goes m)
    (reading : Reading) (tokens : List Token) :
    PdfContent.Unnoticed f fun m => tokens.foldl (feedWhile goes r) (reading, m) := by
  induction tokens generalizing reading with
  | nil => exact fun _ => rfl
  | cons token tokens ih =>
    intro m
    have first : feed r (reading, f m) token = _ := feed_unnoticed hr reading token m
    simp only [List.foldl_cons, feedWhile, first, same]
    split
    · exact ih _ _
    · exact ih _ _

theorem Model.ofTokensWhile_unnoticed {goes : σ → Bool} (same : ∀ m, goes (f m) = goes m)
    (collects : Bool) (tokens : List Token) :
    PdfContent.Unnoticed f (ofTokensWhile goes r collects tokens) := by
  intro m
  have run := Reading.foldl_unnoticed hr same { interpreter := { collectsWarnings := collects } }
    tokens m
  simp only [ofTokensWhile, run]

end Runs

def Session.silent (s : Session) : Session :=
  { s with options := { s.options with collectsWarnings := false } }

namespace Document

def Memory.silent (m : Memory) : Memory := { m with session := m.session.silent }

theorem loadKeptSpace_silent (doc : Document) (id : Option ObjectId) (o : PdfObject) :
    Unnoticed Memory.silent (Scope.loadKeptSpace doc id o) := by
  intro m
  unfold Scope.loadKeptSpace
  cases id with
  | none => rfl
  | some number =>
    dsimp only [Memory.silent, Session.silent]
    cases m.session.colorSpaces.get? number with
    | some space => rfl
    | none =>
      dsimp only [Memory.loadSpace]
      cases ((doc.loadColorSpace o).run m.session.separations).1 <;> rfl

theorem loadKeptFont_silent (doc : Document) (id : Option ObjectId) (d : Dictionary) :
    Unnoticed Memory.silent (Scope.loadKeptFont doc id d) := by
  intro m
  unfold Scope.loadKeptFont
  cases id with
  | none => rfl
  | some number =>
    dsimp only [Memory.silent, Session.silent]
    cases m.session.fonts.get? number with
    | some font => rfl
    | none => cases doc.readFont d <;> rfl

theorem found_silent {find : Memory → Except Failure α × Memory}
    (h : Unnoticed Memory.silent find) :
    Unnoticed Memory.silent fun m => Memory.found (find m) := by
  intro m
  simp only [Memory.found, h m]

theorem noting_silent {find : Memory → Except Failure α × Memory}
    (h : Unnoticed Memory.silent find) :
    Unnoticed Memory.silent fun m => Memory.noting (find m) := by
  intro m
  simp only [h m]
  rcases find m with ⟨_ | _, _⟩ <;> rfl

theorem colorSpace_silent (doc : Document) (scope : Scope) (name : String) :
    Unnoticed Memory.silent (scope.colorSpace doc name) := by
  intro m
  unfold Scope.colorSpace
  split
  · exact found_silent (loadKeptSpace_silent doc _ _) m
  · rfl

theorem font_silent (doc : Document) (scope : Scope) (name : String) :
    Unnoticed Memory.silent (scope.font doc name) := by
  intro m
  unfold Scope.font
  split
  · rfl
  · split
    · rfl
    · exact found_silent (noting_silent (loadKeptFont_silent doc _ _)) m

theorem pattern_silent (doc : Document) (scope : Scope) (name : String) :
    Unnoticed Memory.silent (scope.pattern doc name) := by
  intro m
  unfold Scope.pattern
  split <;> rfl

theorem shading_silent (doc : Document) (scope : Scope) (name : String) :
    Unnoticed Memory.silent (scope.shading doc name) := by
  intro m
  unfold Scope.shading
  split <;> rfl

theorem extGState_silent (doc : Document) (scope : Scope) (name : String) :
    Unnoticed Memory.silent (scope.extGState doc name) := by
  intro m
  unfold Scope.extGState
  split
  · rfl
  · split <;> rfl

theorem interpret_silent {r : Resources Memory} (hr : r.Unnoticed Memory.silent) (data : Bytes)
    (m : Memory) :
    interpret r data m.silent =
      ((interpret r data m).1.map Model.silent, (interpret r data m).2.silent) := by
  cases ht : Token.ofBytes data with
  | error fault =>
    rw [interpret_error ht, interpret_error ht]
    rfl
  | ok tokens =>
    have same : ∀ m : Memory, m.silent.goes = m.goes := fun _ => rfl
    have quiet := Model.ofTokensWhile_unnoticed hr same false tokens m
    have dropped := Model.ofTokensWhile_silent Memory.goes r m.session.options.collectsWarnings
      tokens m
    have off : m.silent.session.options.collectsWarnings = false := rfl
    simp only [interpret, ht, off, quiet, dropped]
    cases crash : (Model.ofTokensWhile Memory.goes r m.session.options.collectsWarnings tokens
        m).2.crash with
    | none => simp only [Memory.silent, crash, Except.map]
    | some cause => simp only [Memory.silent, crash, Except.map]

def SilentBelow (nested : Nested) : Prop :=
  ∀ resources, nested = some resources → ∀ scope, (resources scope).Unnoticed Memory.silent

section Forms

variable {nested : Nested} (below : SilentBelow nested) (scope : Scope)

include below

theorem formTransparency_silent (doc : Document) (form : Dictionary) (data : Bytes) :
    Unnoticed Memory.silent (doc.formTransparency nested scope form data) := by
  intro m
  unfold formTransparency
  cases nested with
  | none => rfl
  | some resources =>
    dsimp only
    cases doc.streamData form data with
    | error fault => rfl
    | ok bytes =>
      dsimp only
      rw [interpret_silent (below resources rfl scope)]
      cases (interpret (resources scope) bytes m).1 <;> rfl

theorem enterForm_silent (doc : Document) (id : Option ObjectId) (form : Dictionary)
    (data : Bytes) : Unnoticed Memory.silent (doc.enterForm nested scope id form data) := by
  intro m
  have content (inner : Scope) : doc.formTransparency nested inner form data
      { m.silent with truncated := false } = _ :=
    formTransparency_silent below inner doc form data { m with truncated := false }
  unfold enterForm
  dsimp only
  rw [content]
  cases doc.formTransparency nested _ form data { m with truncated := false } with
  | mk result after =>
    cases result with
    | error failure => rfl
    | ok flag =>
      cases id with
      | none => rfl
      | some number =>
        dsimp only [Memory.silent]
        split <;> rfl

theorem readForm_silent (doc : Document) (id : Option ObjectId) (form : Dictionary)
    (data : Bytes) : Unnoticed Memory.silent (doc.readForm nested scope id form data) := by
  intro m
  have entered := enterForm_silent below scope doc id form data m
  have kept : m.silent.session.forms = m.session.forms := rfl
  unfold readForm
  rw [kept]
  cases id.bind fun id => m.session.forms.get? id with
  | some facts => rfl
  | none =>
    dsimp only
    by_cases opened : (id.isSome && scope.openForms.contains id) = true
    · rw [if_pos opened, if_pos opened]
    · rw [if_neg opened, if_neg opened, entered]

theorem xobject_silent (doc : Document) (name : String) :
    Unnoticed Memory.silent (scope.xobject doc nested name) := by
  intro m
  have form := readForm_silent below scope doc
  unfold Scope.xobject
  split
  · rfl
  · rename_i id entries data _
    have read : Unnoticed Memory.silent (doc.readXObject nested scope name id entries data) := by
      intro m
      unfold readXObject
      split
      · rfl
      · simp only [form id entries data m]
      · rfl
      · rfl
    exact found_silent read m
  · rfl

theorem resourcesWith_silent (doc : Document) :
    (scope.resourcesWith doc nested).Unnoticed Memory.silent where
  colorSpace name := colorSpace_silent doc scope name
  font name := font_silent doc scope name
  pattern name := pattern_silent doc scope name
  shading name := shading_silent doc scope name
  xobject name := xobject_silent below scope doc name
  extGState name := extGState_silent doc scope name
  defaultColorSpace family := colorSpace_silent doc scope family.defaultName

end Forms

theorem streamResources_silent (doc : Document) (depth : Nat) (scope : Scope) :
    (doc.streamResources depth scope).Unnoticed Memory.silent := by
  induction depth generalizing scope with
  | zero => exact resourcesWith_silent (fun resources h => by cases h) scope doc
  | succ depth ih =>
    refine resourcesWith_silent (fun resources h => ?_) scope doc
    cases h
    exact ih

theorem Call.run_silent (doc : Document) (call : Call) (s : Session) :
    call.run doc s.silent = ((call.run doc s).1.map Model.silent, (call.run doc s).2.silent) := by
  rw [call.run_eq, call.run_eq]
  cases call.content? doc with
  | error fault => rfl
  | ok c =>
    have read := interpret_silent (doc.streamResources_silent
      (s.options.formLimit - call.opened.length) (c.scope call.opened)) c.data { session := s }
    have model := congrArg Prod.fst read
    have after := congrArg (fun result => result.2.session) read
    exact Prod.ext model after

theorem after_silent (doc : Document) (history : List Call) (s : Session) :
    doc.after history s.silent = (doc.after history s).silent := by
  induction history generalizing s with
  | nil => rfl
  | cons call history ih =>
    simp only [after, List.foldl_cons, Call.run_silent]
    exact ih _

end Document

/-- Warnings are only ever written down. A stream read without collecting them has the same nodes,
with the same glyphs, and the same verdict and depth as one read with them. Among the operators that
an interpreter is asked for, tokens may be skipped and warnings taken anywhere. In a document, where
the forms that are painted are read with the same option, every analysis of a history without it
gives what it gives with it but for the warnings, and the sessions keep the same. -/
theorem warnings_unobserved :
    (∀ {σ : Type} (r : Resources σ) (tokens : List Token) (m : σ),
      let on := Model.ofTokens r true tokens m
      let off := Model.ofTokens r false tokens m
      off.1.nodes = on.1.nodes ∧ off.1.nodes.map Node.glyphs = on.1.nodes.map Node.glyphs ∧
        off.1.containsTransparency = on.1.containsTransparency ∧
        off.1.stackDepth = on.1.stackDepth ∧ off.1.warnings = [] ∧ off.2 = on.2) ∧
    (∀ {σ : Type} (i : Interpreter) (m : σ) (requests : List (Request σ)),
      let mixed := i.serveAll m requests
      let alone := i.serveAll m (requests.filter Request.isOperator)
      mixed.1 = alone.1 ∧ mixed.2.1.state = alone.2.1.state ∧
        mixed.2.1.depth = alone.2.1.depth ∧ mixed.2.2 = alone.2.2) ∧
    ∀ (doc : Document) (history : List Document.Call) (call : Document.Call) (s : Session),
      let on := call.run doc (doc.after history s)
      call.run doc (doc.after history s.silent) = (on.1.map Model.silent, on.2.silent) := by
  refine ⟨?_, ?_, ?_⟩
  · intro σ r tokens m on off
    have silent : off = (on.1.silent, on.2) := Model.ofTokens_silent r true tokens m
    rw [silent]
    exact ⟨rfl, rfl, rfl, rfl, rfl, rfl⟩
  · intro σ i m requests mixed alone
    have same : Interpreter.SameCourse i i := ⟨rfl, rfl⟩
    obtain ⟨nodes, course, memory⟩ := same.serveAll_operators m requests
    exact ⟨nodes, course.state, course.depth, memory⟩
  · intro doc history call s
    rw [doc.after_silent]
    exact call.run_silent doc (doc.after history s)

end PdfContent
