import Mathlib.Data.List.ReduceOption
import PdfContent.Document.Analysis
import PdfContent.Proofs.FormLookup
import PdfContent.Proofs.PairedRuns
import PdfContent.Proofs.Verdicts

/-!
Where an analysis stands. A stream is read at a depth, with forms open around it; each form entered
goes one deeper and is open until its stream ends. An analysis that notes each stream it begins
gives the same as one that does not, and wherever it stands there are as many open forms as its
depth says, no object twice among them, and no more than the limit allows.
-/

namespace PdfContent.Document

/-- Where an analysis stands while it reads a stream: how deep, and in which open forms, innermost
first. -/
structure Moment where
  depth : Nat
  openForms : List (Option ObjectId)
  deriving DecidableEq

structure Watched where
  memory : Memory
  moments : List Moment := []

namespace Watched

variable {α : Type}

def look (find : Memory → α × Memory) (w : Watched) : α × Watched :=
  let result := find w.memory
  (result.1, { w with memory := result.2 })

def truncate (w : Watched) (truncated : Bool) : Watched :=
  { w with memory := { w.memory with truncated } }

end Watched

abbrev Reader := Scope → Bytes → Watched → Except Failure Model × Watched

def watchTransparency (doc : Document) (inside : Option Reader) (scope : Scope)
    (form : Dictionary) (data : Bytes) (w : Watched) : Except Failure Bool × Watched :=
  match inside with
  | none => (.ok false, w.truncate true)
  | some read =>
    match doc.streamData form data with
    | .error fault => (.error (.document fault), w)
    | .ok data =>
      let result := read scope data w
      (result.1.map Model.containsTransparency, result.2)

def leaveForm (doc : Document) (id : Option ObjectId) (form : Dictionary) (truncated : Bool)
    (read : Except Failure Bool × Memory) : Except Failure FormXObject × Memory :=
  match read with
  | (.error e, after) => (.error e, { after with truncated })
  | (.ok contentTransparency, after) =>
    let facts : FormXObject :=
      { transparencyGroup := doc.isTransparencyGroup form, contentTransparency }
    let session := after.session
    let truncated := truncated || after.truncated
    match id with
    | some id =>
      if (doc.dictionary? form "Resources").isSome && !after.truncated then
        let kept := session.forms.getOrInsert id facts
        (.ok kept.1, { after with session := { session with forms := kept.2 }, truncated })
      else (.ok facts, { after with truncated })
    | none => (.ok facts, { after with truncated })

def innerScope (doc : Document) (scope : Scope) (id : Option ObjectId) (form : Dictionary) :
    Scope where
  resources := (doc.dictionary? form "Resources").or scope.resources
  openForms := id :: scope.openForms

def watchForm (doc : Document) (inside : Option Reader) (scope : Scope) (id : Option ObjectId)
    (form : Dictionary) (data : Bytes) (w : Watched) : Except Failure FormXObject × Watched :=
  match id.bind fun id => w.memory.session.forms.get? id with
  | some facts => (.ok facts, w)
  | none =>
    if id.isSome && scope.openForms.contains id then
      (.ok { transparencyGroup := doc.isTransparencyGroup form, contentTransparency := false }, w)
    else
      let read := doc.watchTransparency inside (doc.innerScope scope id form) form data
        (w.truncate false)
      let left := doc.leaveForm id form w.memory.truncated (read.1, read.2.memory)
      (left.1, { read.2 with memory := left.2 })

def watchXObject (doc : Document) (inside : Option Reader) (scope : Scope) :
    Lookup Watched XObject := fun name w =>
  match scope.entry? doc "XObject" name with
  | some (id, .stream entries data) =>
    if doc.name? entries "Subtype" = some "Form" then
      let result := doc.watchForm inside scope id entries data w
      (result.1.map fun form => some (.form form), result.2)
    else w.look (scope.xobject doc none name)
  | _ => w.look (scope.xobject doc none name)

def watchResources (doc : Document) (inside : Option Reader) (scope : Scope) :
    Resources Watched where
  colorSpace name w := w.look (scope.colorSpace doc name)
  font name w := w.look (scope.font doc name)
  pattern name w := w.look (scope.pattern doc name)
  shading name w := w.look (scope.shading doc name)
  xobject := doc.watchXObject inside scope
  extGState name w := w.look (scope.extGState doc name)

/-- Reads a stream at a depth, counted from outside. Forms are entered above the limit alone, which
is what bounds the recursion. -/
def watch (doc : Document) (limit depth : Nat) : Reader := fun scope data w =>
  let inside : Option Reader := if depth < limit then some (doc.watch limit (depth + 1)) else none
  let begun : Watched := { w with moments := ⟨depth, scope.openForms⟩ :: w.moments }
  match Token.ofBytes data with
  | .error fault => (.error (.stream fault), begun)
  | .ok tokens =>
    let result := Model.ofTokensWhile (fun w => w.memory.goes) (doc.watchResources inside scope)
      w.memory.session.options.collectsWarnings tokens begun
    match result.2.memory.crash with
    | some cause => (.error (.font (.crash cause)), result.2)
    | none => (.ok result.1, result.2)
termination_by limit - depth

def watchContent (doc : Document) (data : Bytes) (resources : Option Dictionary) (s : Session) :
    Except Failure Model × Watched :=
  doc.watch s.options.formLimit 0 { resources } data { memory := { session := s } }

def watchFormContent (doc : Document) (id : ObjectId) (resources : Option Dictionary)
    (s : Session) : Except Failure Model × Watched :=
  let start : Watched := { memory := { session := s } }
  let stream := do
    let (entries, data) ← doc.formStream id
    let data ← doc.streamData entries data
    return (entries, data)
  match stream with
  | .error fault => (.error (.document fault), start)
  | .ok (entries, data) =>
    let own := doc.dictionary? entries "Resources"
    let scope : Scope := { resources := own.or resources, openForms := [some id] }
    doc.watch s.options.formLimit 1 scope data start

/-- As many open forms as the depth says, no more than a bound, and no object twice among them. -/
structure Moment.Sound (bound : Nat) (moment : Moment) : Prop where
  distinct : moment.openForms.reduceOption.Nodup
  count : moment.openForms.length = moment.depth
  within : moment.depth ≤ bound

structure Mirrors (bound : Nat) (w : Watched) (m : Memory) : Prop where
  memory : w.memory = m
  sound : ∀ moment ∈ w.moments, moment.Sound bound

section Mirrors

variable {doc : Document} {bound : Nat} {w : Watched} {m : Memory}

theorem Moment.Sound.enter {depth : Nat} {openForms : List (Option ObjectId)}
    (h : Moment.Sound bound ⟨depth, openForms⟩) (deeper : depth + 1 ≤ bound) {id : Option ObjectId}
    (closed : id.isSome → id ∉ openForms) : Moment.Sound bound ⟨depth + 1, id :: openForms⟩ := by
  refine ⟨?_, congrArg (· + 1) h.count, deeper⟩
  cases id with
  | none => exact h.distinct
  | some number =>
    have fresh : number ∉ openForms.reduceOption := fun mem =>
      closed rfl (List.reduceOption_mem_iff.1 mem)
    exact List.nodup_cons.2 ⟨fresh, h.distinct⟩

theorem Mirrors.look {α : Type} (find : Memory → Found α × Memory) :
    SameFind (Mirrors bound) (Watched.look find) find := by
  rintro w _ ⟨rfl, sound⟩
  exact ⟨rfl, rfl, sound⟩

theorem Mirrors.truncate (h : Mirrors bound w m) (truncated : Bool) :
    Mirrors bound (w.truncate truncated) { m with truncated } := by
  obtain ⟨rfl, sound⟩ := h
  exact ⟨rfl, sound⟩

theorem enterForm_eq (doc : Document) (nested : Nested) (scope : Scope) (id : Option ObjectId)
    (form : Dictionary) (data : Bytes) (m : Memory) :
    doc.enterForm nested scope id form data m = doc.leaveForm id form m.truncated
      (doc.formTransparency nested (doc.innerScope scope id form) form data
        { m with truncated := false }) := rfl

def ReadsAs (bound : Nat) (read : Reader) (resources : Scope → Resources Memory) (scope : Scope) :
    Prop :=
  ∀ data w m, Mirrors bound w m →
    (read scope data w).1 = (interpret (resources scope) data m).1 ∧
      Mirrors bound (read scope data w).2 (interpret (resources scope) data m).2

/-- Readers below the limit and resources below it, for the scopes of forms that are not open. -/
inductive Nests (bound : Nat) (openForms : List (Option ObjectId)) : Option Reader → Nested → Prop
  | limit : Nests bound openForms none none
  | below {read : Reader} {resources : Scope → Resources Memory}
      (reads : ∀ scope id, scope.openForms = id :: openForms → (id.isSome → id ∉ openForms) →
        ReadsAs bound read resources scope) :
      Nests bound openForms (some read) (some resources)

theorem watchTransparency_mirrors {inside : Option Reader} {nested : Nested} {scope inner : Scope}
    (h : Nests bound scope.openForms inside nested) {id : Option ObjectId}
    (opened : inner.openForms = id :: scope.openForms) (closed : id.isSome → id ∉ scope.openForms)
    (form : Dictionary) (data : Bytes) (hw : Mirrors bound w m) :
    (doc.watchTransparency inside inner form data w).1 =
        (doc.formTransparency nested inner form data m).1 ∧
      Mirrors bound (doc.watchTransparency inside inner form data w).2
        (doc.formTransparency nested inner form data m).2 := by
  cases h with
  | limit => exact ⟨rfl, hw.truncate true⟩
  | below reads =>
    unfold watchTransparency formTransparency
    cases doc.streamData form data with
    | error fault => exact ⟨rfl, hw⟩
    | ok bytes =>
      obtain ⟨same, mirrors⟩ := reads inner id opened closed bytes w m hw
      exact ⟨congrArg (Except.map Model.containsTransparency) same, mirrors⟩

theorem watchForm_mirrors (doc : Document) {inside : Option Reader} {nested : Nested}
    {scope : Scope} (h : Nests bound scope.openForms inside nested) (id : Option ObjectId)
    (form : Dictionary) (data : Bytes) (hw : Mirrors bound w m) :
    (doc.watchForm inside scope id form data w).1 = (doc.readForm nested scope id form data m).1 ∧
      Mirrors bound (doc.watchForm inside scope id form data w).2
        (doc.readForm nested scope id form data m).2 := by
  have memory := hw.memory
  unfold watchForm readForm
  rw [memory]
  cases id.bind fun id => m.session.forms.get? id with
  | some facts => exact ⟨rfl, hw⟩
  | none =>
    by_cases again : (id.isSome && scope.openForms.contains id) = true
    · dsimp only
      rw [if_pos again, if_pos again]
      exact ⟨rfl, hw⟩
    · have closed : id.isSome → id ∉ scope.openForms := by
        simpa only [Bool.and_eq_true, List.contains_iff_mem, not_and] using again
      have opened : (doc.innerScope scope id form).openForms = id :: scope.openForms := rfl
      obtain ⟨same, mirrors⟩ := watchTransparency_mirrors h opened closed form data
        (hw.truncate false)
      dsimp only
      rw [if_neg again, if_neg again, enterForm_eq, same, mirrors.memory]
      exact ⟨rfl, rfl, mirrors.sound⟩

theorem xobject_of_form {scope : Scope} {name : String} {id : Option ObjectId}
    {entries : Dictionary} {data : Bytes}
    (entry : scope.entry? doc "XObject" name = some (id, .stream entries data))
    (form : doc.name? entries "Subtype" = some "Form") (nested : Nested) (m : Memory) :
    scope.xobject doc nested name m =
      ((doc.readForm nested scope id entries data m).1.map fun form => some (.form form),
        (doc.readForm nested scope id entries data m).2) := by
  simp only [Scope.xobject, entry, readXObject, form, Memory.found]
  cases (doc.readForm nested scope id entries data m).1 <;> rfl

theorem xobject_of_no_form {scope : Scope} {name : String}
    (h : ∀ id entries data, scope.entry? doc "XObject" name = some (id, .stream entries data) →
      doc.name? entries "Subtype" ≠ some "Form") (nested : Nested) :
    scope.xobject doc nested name = scope.xobject doc none name := by
  funext m
  unfold Scope.xobject
  split
  · rfl
  · rename_i id entries data entry
    have other := h id entries data entry
    unfold readXObject
    split
    · rfl
    · contradiction
    · rfl
    · rfl
  · rfl

theorem watchXObject_mirrors {inside : Option Reader} {nested : Nested} {scope : Scope}
    (h : Nests bound scope.openForms inside nested) (name : String) :
    SameFind (Mirrors bound) (doc.watchXObject inside scope name)
      (scope.xobject doc nested name) := by
  unfold watchXObject
  dsimp only
  split
  · rename_i id entries data entry
    by_cases form : doc.name? entries "Subtype" = some "Form"
    · intro w m hw
      obtain ⟨same, mirrors⟩ := doc.watchForm_mirrors h id entries data hw
      dsimp only
      rw [if_pos form, xobject_of_form entry form, same]
      exact ⟨rfl, mirrors⟩
    · have other : ∀ id' entries' data',
          scope.entry? doc "XObject" name = some (id', .stream entries' data') →
          doc.name? entries' "Subtype" ≠ some "Form" := by
        intro id' entries' data' found
        cases entry.symm.trans found
        exact form
      simp only [if_neg form]
      rw [xobject_of_no_form other nested]
      exact Mirrors.look _
  · rename_i unfit
    rw [xobject_of_no_form (fun id entries data found => (unfit id entries data found).elim) nested]
    exact Mirrors.look _

theorem watchResources_mirrors {inside : Option Reader} {nested : Nested} {scope : Scope}
    (h : Nests bound scope.openForms inside nested) :
    (doc.watchResources inside scope).AgreeAll (Mirrors bound)
      (scope.resourcesWith doc nested) where
  colorSpace name := Mirrors.look (scope.colorSpace doc name)
  font name := Mirrors.look (scope.font doc name)
  pattern name := Mirrors.look (scope.pattern doc name)
  shading name := Mirrors.look (scope.shading doc name)
  xobject := watchXObject_mirrors h
  defaultColorSpace family := Mirrors.look (scope.colorSpace doc family.defaultName)
  extGState name := Mirrors.look (scope.extGState doc name)

theorem watch_of_nests {limit depth : Nat} {scope : Scope}
    (sound : Moment.Sound bound ⟨depth, scope.openForms⟩)
    (nests : Nests bound scope.openForms
      (if depth < limit then some (doc.watch limit (depth + 1)) else none)
      (doc.nestedAt (limit - depth))) :
    ReadsAs bound (doc.watch limit depth) (doc.streamResources (limit - depth)) scope := by
  rintro data w _ ⟨rfl, sofar⟩
  have begun : Mirrors bound { w with moments := ⟨depth, scope.openForms⟩ :: w.moments } w.memory :=
    ⟨rfl, List.forall_mem_cons.2 ⟨sound, sofar⟩⟩
  rw [watch, streamResources_eq]
  dsimp only
  cases tokens : Token.ofBytes data with
  | error fault =>
    rw [interpret_error tokens]
    exact ⟨rfl, begun⟩
  | ok tokens' =>
    have together : ∀ (w : Watched) m, Mirrors bound w m → w.memory.goes = m.goes :=
      fun w m h => congrArg Memory.goes h.memory
    have agree : (doc.watchResources _ scope).AgreeAll (Mirrors bound)
        (scope.resourcesWith doc _) := watchResources_mirrors nests
    have alike := Model.ofTokensWhile_of_agreeAll agree together
      w.memory.session.options.collectsWarnings tokens' begun
    simp only [interpret, tokens]
    revert alike
    generalize Model.ofTokensWhile _ (doc.watchResources _ scope) _ tokens' _ = watched
    generalize Model.ofTokensWhile _ (scope.resourcesWith doc _) _ tokens' _ = run
    rintro ⟨same, mirrors⟩
    rw [mirrors.memory]
    cases run.2.crash with
    | some cause => exact ⟨rfl, mirrors⟩
    | none => exact ⟨congrArg Except.ok same, mirrors⟩

/-- A watched stream is read as it is unwatched, and all that is noted on the way is sound. -/
theorem watch_mirrors (doc : Document) {limit depth bound : Nat} (enough : limit ≤ bound)
    {scope : Scope} (sound : Moment.Sound bound ⟨depth, scope.openForms⟩) :
    ReadsAs bound (doc.watch limit depth) (doc.streamResources (limit - depth)) scope := by
  refine watch_of_nests sound ?_
  induction levels : limit - depth generalizing depth scope with
  | zero =>
    rw [if_neg (by omega)]
    exact .limit
  | succ left ih =>
    rw [if_pos (by omega)]
    refine .below fun inner id opened closed => ?_
    have deeper : Moment.Sound bound ⟨depth + 1, inner.openForms⟩ := by
      rw [opened]
      exact sound.enter (by omega) closed
    have less : limit - (depth + 1) = left := by omega
    have reads := watch_of_nests deeper (by rw [less]; exact ih deeper less)
    rwa [less] at reads

theorem watch_analyzes (doc : Document) {limit depth bound : Nat} (enough : limit ≤ bound)
    {scope : Scope} (sound : Moment.Sound bound ⟨depth, scope.openForms⟩) (data : Bytes)
    (s : Session) :
    let watched := doc.watch limit depth scope data { memory := { session := s } }
    (watched.1, watched.2.memory.session) = doc.analyze (limit - depth) scope data s ∧
      ∀ moment ∈ watched.2.moments, moment.Sound bound := by
  have fresh : Mirrors bound { memory := { session := s } } { session := s } :=
    ⟨rfl, fun moment mem => by cases mem⟩
  obtain ⟨same, mirrors⟩ := doc.watch_mirrors enough sound data _ _ fresh
  exact ⟨Prod.ext same (congrArg Memory.session mirrors.memory), mirrors.sound⟩

end Mirrors

theorem analyze_ends {doc : Document} {data : Bytes} {tokens : List Token}
    (h : Token.ofBytes data = .ok tokens) (depth : Nat) (scope : Scope) (s : Session) :
    (∃ model, (doc.analyze depth scope data s).1 = .ok model) ∨
      ∃ cause, (doc.analyze depth scope data s).1 = .error (.font (.crash cause)) :=
  interpret_cases (motive := fun result =>
      (∃ model, result.1 = .ok model) ∨ ∃ cause, result.1 = .error (.font (.crash cause))) h _
    (fun _ cause _ _ => .inr ⟨cause, rfl⟩) fun _ => .inl ⟨_, rfl⟩

/-- However forms paint one another, an analysis ends: wherever its stream can be reached and is
tokens it gives a model, or comes down with a font. It gives the same when it notes where it stands,
and wherever it stands there are as many open forms as its depth says, all with different numbers,
and no more than the limit; a form analyzed by itself is open from the start, whatever the limit. -/
theorem openFrames_bounded (doc : Document) (resources : Option Dictionary) (s : Session) :
    (∀ data tokens, Token.ofBytes data = .ok tokens →
      (∃ model, (doc.analyzeContent data resources s).1 = .ok model) ∨
        ∃ cause, (doc.analyzeContent data resources s).1 = .error (.font (.crash cause))) ∧
    (∀ id entries data bytes tokens, doc.formStream id = .ok (entries, data) →
      doc.streamData entries data = .ok bytes → Token.ofBytes bytes = .ok tokens →
      (∃ model, (doc.analyzeForm id resources s).1 = .ok model) ∨
        ∃ cause, (doc.analyzeForm id resources s).1 = .error (.font (.crash cause))) ∧
    (∀ data, let watched := doc.watchContent data resources s
      (watched.1, watched.2.memory.session) = doc.analyzeContent data resources s ∧
        ∀ moment ∈ watched.2.moments, moment.Sound s.options.formLimit) ∧
    ∀ id, let watched := doc.watchFormContent id resources s
      (watched.1, watched.2.memory.session) = doc.analyzeForm id resources s ∧
        ∀ moment ∈ watched.2.moments, moment.Sound (max 1 s.options.formLimit) := by
  refine ⟨?_, ?_, ?_, ?_⟩
  · intro data tokens read
    exact analyze_ends read _ _ s
  · intro id entries data bytes tokens stream held read
    unfold analyzeForm
    rw [stream]
    dsimp only [bind, Except.bind]
    rw [held]
    exact analyze_ends read _ _ s
  · intro data
    have sound : Moment.Sound s.options.formLimit ⟨0, []⟩ := ⟨.nil, rfl, Nat.zero_le _⟩
    exact doc.watch_analyzes (Nat.le_refl _) sound data s
  · intro id
    have sound : Moment.Sound (max 1 s.options.formLimit) ⟨1, [some id]⟩ :=
      ⟨List.nodup_cons.2 ⟨List.not_mem_nil, .nil⟩, rfl, Nat.le_max_left ..⟩
    unfold watchFormContent analyzeForm
    cases doc.formStream id with
    | error fault => exact ⟨rfl, fun moment mem => by cases mem⟩
    | ok stream =>
      obtain ⟨entries, data⟩ := stream
      dsimp only [bind, Except.bind]
      cases doc.streamData entries data with
      | error fault => exact ⟨rfl, fun moment mem => by cases mem⟩
      | ok bytes => exact doc.watch_analyzes (Nat.le_max_right ..) sound bytes s

theorem openFrames_bounded_mutualForms :
    let watched := mutualForms.watchContent paintFirst.data paintFirst.resources {}
    watched.2.moments =
        [⟨2, [some ⟨6, 0⟩, some ⟨5, 0⟩]⟩, ⟨1, [some ⟨5, 0⟩]⟩, ⟨0, []⟩] ∧
      ∀ moment ∈ watched.2.moments, moment.Sound 10 := by
  intro watched
  refine ⟨by decide +kernel, ?_⟩
  obtain ⟨-, -, content, -⟩ := openFrames_bounded mutualForms paintFirst.resources {}
  exact (content paintFirst.data).2

end PdfContent.Document
