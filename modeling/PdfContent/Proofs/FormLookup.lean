import PdfContent.Proofs.Painting
import PdfContent.Proofs.SessionKeeps

/-!
What interpreting a stream of a document does to the forms a session keeps, and what its nodes say
of the forms it paints. Only the lookup of a form touches the kept forms; each such lookup is a
hit, a form cut because it is open, or a form entered.
-/

namespace PdfContent.Document

def Content.scope (c : Content) (opened : List (Option ObjectId)) : Scope where
  resources := c.resources
  openForms := opened

/-- Interprets a content below which forms are followed `depth` levels deep. -/
def readContent (doc : Document) (depth : Nat) (opened : List (Option ObjectId)) (c : Content)
    (m : Memory) : Except Failure Model × Memory :=
  interpret (doc.streamResources depth (c.scope opened)) c.data m

def findXObject (doc : Document) (depth : Nat) (opened : List (Option ObjectId)) (c : Content)
    (name : String) (m : Memory) : Found XObject × Memory :=
  (c.scope opened).xobject doc (doc.nestedAt depth) name m

def Memory.forms (m : Memory) : KeptForms := m.session.forms

/-- The part of a memory that no lookup touches but that of a form, and that of a font where reading
comes down. -/
structure Frame where
  options : Options
  forms : KeptForms
  truncated : Bool
  crash : Option Crash

def Memory.frame (m : Memory) : Frame := ⟨m.session.options, m.session.forms, m.truncated, m.crash⟩

theorem loadKeptSpace_cases {motive : Except Failure ColorSpace × Memory → Prop} (doc : Document)
    (id : Option ObjectId) (o : PdfObject) (m : Memory)
    (loaded : (id = none ∨ ∃ failure, (m.loadSpace (doc.loadColorSpace o)).1 = .error failure) →
      motive (m.loadSpace (doc.loadColorSpace o)))
    (kept : ∀ number space, id = some number →
      m.session.colorSpaces.get? number = some space → motive (.ok space, m))
    (stored : ∀ number space, id = some number → m.session.colorSpaces.get? number = none →
      (m.loadSpace (doc.loadColorSpace o)).1 = .ok space →
      let after := (m.loadSpace (doc.loadColorSpace o)).2
      motive (.ok space, { after with session := { after.session with
        colorSpaces := (m.session.colorSpaces.getOrInsert number space).2 } })) :
    motive (Scope.loadKeptSpace doc id o m) := by
  unfold Scope.loadKeptSpace
  cases id with
  | none => exact loaded (.inl rfl)
  | some number =>
    dsimp only
    cases hk : m.session.colorSpaces.get? number with
    | some space => exact kept number space rfl hk
    | none =>
      have same : (m.loadSpace (doc.loadColorSpace o)).2.session.colorSpaces =
        m.session.colorSpaces := rfl
      dsimp only
      cases hl : m.loadSpace (doc.loadColorSpace o) with
      | mk result after =>
        rw [hl] at same loaded stored
        cases result with
        | error failure => exact loaded (.inr ⟨failure, rfl⟩)
        | ok space =>
          have step := stored number space rfl hk rfl
          dsimp only at same ⊢
          rw [same, Cache.getOrInsert_fst, hk, Option.getD_none]
          exact step

theorem loadKeptFont_cases {motive : Except Failure Font × Memory → Prop} (doc : Document)
    (id : Option ObjectId) (d : Dictionary) (m : Memory)
    (loaded : (id = none ∨ ∃ failure, doc.readFont d = .error failure) →
      motive (doc.readFont d, m))
    (kept : ∀ number font, id = some number →
      m.session.fonts.get? number = some font → motive (.ok font, m))
    (stored : ∀ number font, id = some number → m.session.fonts.get? number = none →
      doc.readFont d = .ok font →
      motive (.ok font, { m with session := { m.session with
        fonts := (m.session.fonts.getOrInsert number font).2 } })) :
    motive (Scope.loadKeptFont doc id d m) := by
  unfold Scope.loadKeptFont
  cases id with
  | none => exact loaded (.inl rfl)
  | some number =>
    dsimp only
    cases hk : m.session.fonts.get? number with
    | some font => exact kept number font rfl hk
    | none =>
      dsimp only
      cases hl : doc.readFont d with
      | error failure =>
        rw [hl] at loaded
        exact loaded (.inr ⟨failure, rfl⟩)
      | ok font =>
        have step := stored number font rfl hk hl
        dsimp only
        rw [Cache.getOrInsert_fst, hk, Option.getD_none]
        exact step

theorem loadKeptSpace_frame (doc : Document) (id : Option ObjectId) (o : PdfObject) (m : Memory) :
    (Scope.loadKeptSpace doc id o m).2.frame = m.frame :=
  loadKeptSpace_cases (motive := fun result => result.2.frame = m.frame) doc id o m
    (fun _ => rfl) (fun _ _ _ _ => rfl) (fun _ _ _ _ _ => rfl)

theorem loadKeptFont_frame (doc : Document) (id : Option ObjectId) (d : Dictionary) (m : Memory) :
    (Scope.loadKeptFont doc id d m).2.frame = m.frame :=
  loadKeptFont_cases (motive := fun result => result.2.frame = m.frame) doc id d m
    (fun _ => rfl) (fun _ _ _ _ => rfl) (fun _ _ _ _ _ => rfl)

theorem colorSpace_frame (doc : Document) (scope : Scope) (name : String) (m : Memory) :
    (scope.colorSpace doc name m).2.frame = m.frame := by
  unfold Scope.colorSpace
  split
  · exact loadKeptSpace_frame doc _ _ m
  · rfl

theorem noting_frame {α : Type} (result : Except Failure α × Memory) :
    (Memory.noting result).2.frame = result.2.frame ∨
      ∃ cause, (Memory.noting result).2.frame = { result.2.frame with crash := some cause } := by
  rcases result with ⟨failure | a, m⟩
  · cases hm : m.crash with
    | some cause => exact .inl (by simp only [Memory.noting, Memory.frame, hm, Option.some_or])
    | none =>
      cases hf : failure.crash? with
      | none => exact .inl (by simp only [Memory.noting, Memory.frame, hm, hf, Option.none_or])
      | some cause =>
        exact .inr ⟨cause, by simp only [Memory.noting, Memory.frame, hm, hf, Option.none_or]⟩
  · exact .inl rfl

theorem font_frame (doc : Document) (scope : Scope) (name : String) (m : Memory) :
    (scope.font doc name m).2.frame = m.frame ∨
      ∃ cause, (scope.font doc name m).2.frame = { m.frame with crash := some cause } := by
  unfold Scope.font
  split
  · exact .inl rfl
  · split
    · exact .inl rfl
    · rename_i _ id _ _ _ d _
      have noted := noting_frame (Scope.loadKeptFont doc id d m)
      rw [loadKeptFont_frame] at noted
      exact noted

theorem pattern_frame (doc : Document) (scope : Scope) (name : String) (m : Memory) :
    (scope.pattern doc name m).2.frame = m.frame := by
  unfold Scope.pattern
  split <;> rfl

theorem shading_frame (doc : Document) (scope : Scope) (name : String) (m : Memory) :
    (scope.shading doc name m).2.frame = m.frame := by
  unfold Scope.shading
  split <;> rfl

theorem extGState_frame (doc : Document) (scope : Scope) (name : String) (m : Memory) :
    (scope.extGState doc name m).2.frame = m.frame := by
  unfold Scope.extGState
  split
  · rfl
  · split <;> rfl

theorem resourcesWith_keepsApart (doc : Document) (nested : Nested) (scope : Scope)
    (frame : Frame) :
    (scope.resourcesWith doc nested).KeepsApart fun m => m.frame = frame where
  colorSpace name m h := (colorSpace_frame doc scope name m).trans h
  pattern name m h := (pattern_frame doc scope name m).trans h
  shading name m h := (shading_frame doc scope name m).trans h
  extGState name m h := (extGState_frame doc scope name m).trans h
  defaultColorSpace family m h := (colorSpace_frame doc scope family.defaultName m).trans h

theorem imageSpace_run (doc : Document) (entries : Dictionary)
    (separations : Cache String ColorSpace) :
    ∃ space after, doc.imageSpace entries separations = (.ok space, after) := by
  unfold imageSpace
  cases doc.get? entries "ColorSpace" with
  | some o => exact ⟨_, _, rfl⟩
  | none => exact ⟨none, separations, rfl⟩

theorem readImage_ok (doc : Document) (entries : Dictionary) (m : Memory) :
    ∃ image, (m.loadSpace (doc.readImage entries)).1 = .ok image ∧
      image.isTransparent = doc.isTransparentImage entries := by
  obtain ⟨space, after, h⟩ := imageSpace_run doc entries m.session.separations
  simp only [Memory.loadSpace, readImage, ExceptT.run, bind, ExceptT.bind, ExceptT.mk,
    StateT.bind, h]
  exact ⟨_, rfl, rfl⟩

theorem value?_found {α : Type} (result : Except Failure α × Memory) :
    (Memory.found result).1.value? = result.1.toOption := by
  rcases result with ⟨_ | _, _⟩ <;> rfl

def FindsNeither (doc : Document) (c : Content) (name : String) : Prop :=
  ∀ id entries data, doc.Finds c name id entries data →
    doc.name? entries "Subtype" ≠ some "Image" ∧ doc.name? entries "Subtype" ≠ some "Form"

theorem findXObject_cases {motive : Option XObject → Frame → Prop} (doc : Document)
    (depth : Nat) (opened : List (Option ObjectId)) (c : Content) (name : String) (m : Memory)
    (neither : ∀ found : Option XObject, found.any XObject.isTransparent = false →
      doc.FindsNeither c name → motive found m.frame)
    (image : ∀ id entries data image, doc.Finds c name id entries data →
      doc.name? entries "Subtype" = some "Image" →
      image.isTransparent = doc.isTransparentImage entries → motive (some (.image image)) m.frame)
    (form : ∀ id entries data, doc.Finds c name id entries data →
      doc.name? entries "Subtype" = some "Form" →
      motive
        ((doc.readForm (doc.nestedAt depth) (c.scope opened) id entries data
          m).1.toOption.map .form)
        (doc.readForm (doc.nestedAt depth) (c.scope opened) id entries data m).2.frame) :
    motive (doc.findXObject depth opened c name m).1.value?
      (doc.findXObject depth opened c name m).2.frame := by
  unfold findXObject Scope.xobject
  split
  · rename_i he
    exact neither none rfl fun id entries data h => by cases he.symm.trans h
  · rename_i id entries data he
    rw [value?_found]
    change motive _ (doc.readXObject _ _ name id entries data m).2.frame
    have found : ∀ {subtype}, doc.name? entries "Subtype" = subtype → subtype ≠ some "Image" →
        subtype ≠ some "Form" → doc.FindsNeither c name := by
      intro subtype hs hi hf id' entries' data' h
      cases he.symm.trans h
      exact ⟨hs ▸ hi, hs ▸ hf⟩
    unfold readXObject
    split
    · rename_i hs
      obtain ⟨read, hr, ht⟩ := readImage_ok doc entries m
      simp only [hr, Except.map, Except.toOption]
      exact image id entries data read he hs ht
    · rename_i hs
      have hf := form id entries data he hs
      cases hr : (doc.readForm (doc.nestedAt depth) (c.scope opened) id entries data m).1 <;>
        simpa only [hr, Except.map, Except.toOption, Option.map_none, Option.map_some] using hf
    · rename_i hs
      exact neither (some .postScript) rfl (found hs (by decide) (by decide))
    · rename_i hi hf _
      exact neither none rfl (found rfl hi hf)
  · rename_i hne he
    refine neither none rfl fun id entries data h => ?_
    cases he.symm.trans h
    exact (hne id entries data rfl).elim

theorem readForm_cases {motive : Option FormXObject → Frame → Prop} (doc : Document)
    (nested : Nested) (scope : Scope) (id : Option ObjectId) (form : Dictionary) (data : Bytes)
    (m : Memory)
    (hit : ∀ facts, keptForm? m.forms id = some facts → motive (some facts) m.frame)
    (cut : keptForm? m.forms id = none → id.isSome → id ∈ scope.openForms →
      motive (some ⟨doc.isTransparencyGroup form, false⟩) m.frame)
    (enter : keptForm? m.forms id = none → (id.isSome → id ∉ scope.openForms) →
      motive (doc.enterForm nested scope id form data m).1.toOption
        (doc.enterForm nested scope id form data m).2.frame) :
    motive (doc.readForm nested scope id form data m).1.toOption
      (doc.readForm nested scope id form data m).2.frame := by
  unfold readForm
  split
  · rename_i facts hk
    exact hit facts hk
  · rename_i hk
    split
    · rename_i ho
      simp only [Bool.and_eq_true, List.contains_iff_mem] at ho
      exact cut hk ho.1 ho.2
    · rename_i ho
      simp only [Bool.and_eq_true, List.contains_iff_mem, not_and] at ho
      exact enter hk ho

theorem readContent_eq_ok {doc : Document} {depth : Nat} {opened : List (Option ObjectId)}
    {c : Content} {m after : Memory} {model : Model}
    (h : doc.readContent depth opened c m = (.ok model, after)) :
    ∃ tokens, Token.ofBytes c.data = .ok tokens ∧
      model = (Model.ofTokens (doc.streamResources depth (c.scope opened))
        m.session.options.collectsWarnings tokens m).1 ∧
      after = (Model.ofTokens (doc.streamResources depth (c.scope opened))
        m.session.options.collectsWarnings tokens m).2 ∧ after.crash = none := by
  unfold readContent at h
  cases ht : Token.ofBytes c.data with
  | error fault =>
    rw [interpret_error ht] at h
    cases h
  | ok tokens =>
    revert h
    refine interpret_cases (motive := fun result => result = (.ok model, after) → _) ht m ?_ ?_
    · intro read cause _ _ h
      cases h
    · intro calm h
      cases h
      exact ⟨tokens, rfl, rfl, rfl, calm⟩

theorem readContent_eq_error {doc : Document} {depth : Nat} {opened : List (Option ObjectId)}
    {c : Content} {m after : Memory} {failure : Failure}
    (h : doc.readContent depth opened c m = (.error failure, after)) :
    (∃ fault, Token.ofBytes c.data = .error fault ∧ failure = .stream fault ∧ after = m) ∨
      ∃ tokens cause, Token.ofBytes c.data = .ok tokens ∧ failure = .font (.crash cause) ∧
        after.crash = some cause := by
  unfold readContent at h
  cases ht : Token.ofBytes c.data with
  | error fault =>
    rw [interpret_error ht] at h
    cases h
    exact .inl ⟨fault, rfl, rfl, rfl⟩
  | ok tokens =>
    revert h
    refine interpret_cases (motive := fun result => result = (.error failure, after) → _) ht m ?_ ?_
    · intro read cause _ down h
      cases h
      exact .inr ⟨tokens, cause, rfl, rfl, down⟩
    · intro _ h
      cases h

/-- A form that is entered: at the depth limit it is not read, without bytes or tokens it is not
found, and else its content is interpreted, which may come down, and the outcome perhaps kept. -/
theorem enterForm_cases {motive : Option FormXObject → Frame → Prop} (doc : Document)
    (depth : Nat) (scope : Scope) (id : Option ObjectId) (form : Dictionary) (data : Bytes)
    (m : Memory)
    (limit : depth = 0 → motive (some ⟨doc.isTransparencyGroup form, false⟩)
      { m.frame with truncated := true })
    (unread : doc.formContent? scope.resources form data = none → motive none m.frame)
    (crash : ∀ below content cause after, depth = below + 1 →
      doc.formContent? scope.resources form data = some content →
      doc.readContent below (id :: scope.openForms) content { m with truncated := false } =
        (.error (.font (.crash cause)), after) → after.crash = some cause →
      motive none { after.frame with truncated := m.truncated })
    (run : ∀ below content model after, depth = below + 1 →
      doc.formContent? scope.resources form data = some content →
      doc.readContent below (id :: scope.openForms) content { m with truncated := false } =
        (.ok model, after) →
      motive (some ⟨doc.isTransparencyGroup form, model.containsTransparency⟩)
          { after.frame with truncated := m.truncated || after.truncated } ∧
        ∀ number, id = some number → (doc.dictionary? form "Resources").isSome →
          after.truncated = false →
          motive (some (after.forms.getOrInsert number
              ⟨doc.isTransparencyGroup form, model.containsTransparency⟩).1)
            { after.frame with
              forms := (after.forms.getOrInsert number
                ⟨doc.isTransparencyGroup form, model.containsTransparency⟩).2
              truncated := m.truncated || after.truncated }) :
    motive (doc.enterForm (doc.nestedAt depth) scope id form data m).1.toOption
      (doc.enterForm (doc.nestedAt depth) scope id form data m).2.frame := by
  cases depth with
  | zero =>
    have hl := limit rfl
    cases id <;>
      simpa [enterForm, nestedAt, formTransparency, Memory.frame, Except.toOption] using hl
  | succ below =>
    cases hb : doc.streamData form data with
    | error fault =>
      have hu := unread (by simp only [formContent?, hb])
      simpa [enterForm, nestedAt, formTransparency, hb, Memory.frame, Except.toOption] using hu
    | ok bytes =>
      cases ht : Token.ofBytes bytes with
      | error fault =>
        have hu := unread (by simp only [formContent?, hb, ht])
        simpa [enterForm, nestedAt, formTransparency, hb, interpret_error ht, Memory.frame,
          Except.toOption, Except.map] using hu
      | ok tokens =>
        let content : Content := ⟨(doc.dictionary? form "Resources").or scope.resources, bytes⟩
        have read : doc.formContent? scope.resources form data = some content :=
          formContent?_of_ofBytes hb ht
        cases hr : doc.readContent below (id :: scope.openForms) content
            { m with truncated := false } with
        | mk result after =>
          have hi : interpret (doc.streamResources below (content.scope (id :: scope.openForms)))
            bytes { m with truncated := false } = (result, after) := hr
          simp only [content, Content.scope] at hi
          cases result with
          | error failure =>
            rcases readContent_eq_error hr with ⟨fault, hf, -⟩ | ⟨_, cause, -, rfl, hc⟩
            · cases ht.symm.trans hf
            · have down := crash below content cause after rfl read hr hc
              simp only [enterForm, nestedAt, formTransparency, hb, hi, Except.map]
              exact down
          | ok model =>
            obtain ⟨passed, kept⟩ := run below content model after rfl read hr
            simp only [enterForm, nestedAt, formTransparency, hb, hi, Except.map]
            cases id with
            | none => exact passed
            | some number =>
              dsimp only
              split
              · rename_i hk
                simp only [Bool.and_eq_true, Bool.not_eq_true'] at hk
                exact kept number rfl hk.1 hk.2
              · exact passed

theorem bareResources_same (doc : Document) (nested : Nested) (scope : Scope) :
    Interpreter.SameExtGStates (scope.resourcesWith doc nested)
      (doc.bareResources scope.resources) := by
  intro name m m'
  change (scope.extGState doc name m).1 =
    (Scope.extGState doc { resources := scope.resources } name m').1
  unfold Scope.extGState
  have he : Scope.entry? doc { resources := scope.resources } "ExtGState" name =
      scope.entry? doc "ExtGState" name := rfl
  rw [he]
  cases scope.entry? doc "ExtGState" name with
  | none => rfl
  | some found =>
    dsimp only
    cases found.2.dictionary? <;> rfl

theorem bareNodes_painted? {doc : Document} {c : Content} {n : Node} (h : n ∈ doc.bareNodes c) :
    n.painted? = none := by
  unfold bareNodes at h
  cases ht : Token.ofBytes c.data with
  | error fault =>
    rw [ht] at h
    cases h
  | ok tokens =>
    rw [ht] at h
    have hall : ∀ n ∈ (Model.ofTokens (doc.bareResources c.resources) true tokens
        { session := {} }).1.nodes, n.painted? = none := by
      refine Model.ofTokens_induction (P := fun nodes _ => ∀ n ∈ nodes, n.painted? = none)
        (doc.bareResources c.resources) true tokens { session := {} } (by simp) ?_
      intro nodes i name operands m' hn _ n hm
      rcases List.mem_append.1 hm with hm | hm
      · exact hn n hm
      · rw [List.mem_singleton.1 hm, Interpreter.step_painted?]
        cases (i.step (doc.bareResources c.resources) name operands m').1.1.paintedName? <;> rfl
    exact hall n h

def readTokens (doc : Document) (depth : Nat) (opened : List (Option ObjectId)) (c : Content)
    (read : List Token) (m : Memory) : Model × Memory :=
  Model.ofTokens (doc.streamResources depth (c.scope opened)) m.session.options.collectsWarnings
    read m

theorem readTokens_ink {doc : Document} {c : Content} {tokens : List Token}
    (ht : Token.ofBytes c.data = .ok tokens) (depth : Nat) (opened : List (Option ObjectId))
    (m : Memory) :
    (doc.readTokens depth opened c tokens m).1.nodes.map Node.ink =
      (doc.bareNodes c).map Node.ink := by
  rw [bareNodes, ht, readTokens, streamResources_eq]
  exact Model.ofTokens_ink (bareResources_same doc _ (c.scope opened)) _ _ tokens m _

section Read

variable {doc : Document} {depth : Nat} {opened : List (Option ObjectId)} {c : Content}
  {tokens read : List Token} {m : Memory} (ht : Token.ofBytes c.data = .ok tokens)
  (front : read <+: tokens)

include ht front

theorem exists_bareNode_of_mem {n : Node}
    (mem : n ∈ (doc.readTokens depth opened c read m).1.nodes) :
    ∃ bare ∈ doc.bareNodes c, bare.ink = n.ink := by
  have front := Model.nodes_prefix (doc.streamResources depth (c.scope opened))
    m.session.options.collectsWarnings front m
  have hi : n.ink ∈ (doc.readTokens depth opened c tokens m).1.nodes.map Node.ink :=
    List.mem_map_of_mem (front.subset mem)
  rw [readTokens_ink ht] at hi
  exact List.mem_map.1 hi

theorem names_of_mem {n : Node} {name : String}
    (mem : n ∈ (doc.readTokens depth opened c read m).1.nodes)
    (hn : n.paintedName? = some name) : doc.Names c name := by
  obtain ⟨bare, hb, he⟩ := exists_bareNode_of_mem ht front mem
  refine ⟨bare, hb, ?_⟩
  rw [← Node.ink_paintedName? bare, he, Node.ink_paintedName?, hn]

theorem asksFont_of_mem {n : Node} {name : String}
    (mem : n ∈ (doc.readTokens depth opened c read m).1.nodes)
    (hn : n.askedFont? = some name) : doc.AsksFont c name := by
  obtain ⟨bare, hb, he⟩ := exists_bareNode_of_mem ht front mem
  refine ⟨bare, hb, ?_⟩
  rw [← Node.ink_askedFont? bare, he, Node.ink_askedFont?, hn]

/-- Reading on changes the frame by lookups of external objects, and where a font comes down. What
lasts of a session holds at each of them. -/
theorem readTokens_induction {L : Session → Prop} (lasting : doc.Lasting L) (kept : L m.session)
    {P : List Node → Frame → Prop} (start : P [] m.frame)
    (plain : ∀ nodes n frame, P nodes frame → n.paintedName? = none → n.painted? = none →
      n.askedFont? = none → P (nodes ++ [n]) frame)
    (font : ∀ nodes n name m', L m'.session → P nodes m'.frame → n.paintedName? = none →
      n.painted? = none → n.askedFont? = some name → doc.AsksFont c name →
      P (nodes ++ [n]) ((c.scope opened).font doc name m').2.frame)
    (paint : ∀ nodes n name m', L m'.session → P nodes m'.frame → n.paintedName? = some name →
      doc.Names c name →
      n.painted? = (doc.findXObject depth opened c name m').1.value? →
      P (nodes ++ [n]) (doc.findXObject depth opened c name m').2.frame) :
    P (doc.readTokens depth opened c read m).1.nodes
      (doc.readTokens depth opened c read m).2.frame := by
  refine (Model.ofTokens_induction (P := fun nodes m' => L m'.session ∧ P nodes m'.frame)
    (doc.streamResources depth (c.scope opened)) _ read m ⟨kept, start⟩ ?_).2
  rintro nodes i name operands m' ⟨hl, hp⟩ hmem
  refine ⟨lasting.step depth (c.scope opened) i name operands hl, ?_⟩
  have named := fun font (h : _ = some font) => asksFont_of_mem ht front hmem h
  have names := fun found (h : _ = some found) => names_of_mem ht front hmem h
  rw [streamResources_eq] at named names ⊢
  have hx := Interpreter.step_painted? ((c.scope opened).resourcesWith doc (doc.nestedAt depth)) i
    name operands m'
  cases hn : (i.step ((c.scope opened).resourcesWith doc (doc.nestedAt depth)) name operands
      m').1.1.paintedName? with
  | none =>
    rw [hn, Option.bind_none] at hx
    cases ha : (i.step ((c.scope opened).resourcesWith doc (doc.nestedAt depth)) name operands
        m').1.1.askedFont? with
    | none =>
      have hk := Interpreter.step_keeps_of_unasked
        (resourcesWith_keepsApart doc (doc.nestedAt depth) (c.scope opened) m'.frame) i hn ha rfl
      rw [hk]
      exact plain nodes _ _ hp hn hx ha
    | some asked =>
      rw [Interpreter.step_memory_of_asked _ i ha]
      exact font nodes _ asked m' hl hp hn hx ha (named asked ha)
  | some found =>
    rw [hn, Option.bind_some] at hx
    rw [Interpreter.step_memory_of_painted _ i hn]
    exact paint nodes _ found m' hl hp hn (names found hn) hx

end Read

theorem readContent_memory (doc : Document) (depth : Nat) (opened : List (Option ObjectId))
    (c : Content) (m : Memory) :
    (doc.readContent depth opened c m).2 = m ∨
      ∃ tokens read, Token.ofBytes c.data = .ok tokens ∧ read <+: tokens ∧
        (doc.readContent depth opened c m).2 = (doc.readTokens depth opened c read m).2 := by
  unfold readContent
  cases ht : Token.ofBytes c.data with
  | error fault =>
    rw [interpret_error ht]
    exact .inl rfl
  | ok tokens =>
    refine .inr ⟨tokens, ?_⟩
    refine interpret_cases (motive := fun result => ∃ read, Except.ok tokens = Except.ok tokens ∧
      read <+: tokens ∧ result.2 = (doc.readTokens depth opened c read m).2) ht m ?_ ?_
    · intro read cause front _
      exact ⟨read, rfl, front, rfl⟩
    · intro _
      exact ⟨tokens, rfl, List.prefix_refl _, rfl⟩

theorem readContent_frame_lasting {doc : Document} {depth : Nat} {opened : List (Option ObjectId)}
    {c : Content} {m : Memory} {L : Session → Prop} (lasting : doc.Lasting L) (kept : L m.session)
    {P : Frame → Prop} (start : P m.frame)
    (down : ∀ f cause, P f → P { f with crash := some cause })
    (find : ∀ name m, doc.Names c name → L m.session → P m.frame →
      P (doc.findXObject depth opened c name m).2.frame) :
    P (doc.readContent depth opened c m).2.frame := by
  rcases doc.readContent_memory depth opened c m with same | ⟨tokens, read, ht, front, same⟩
  · rw [same]
    exact start
  · rw [same]
    refine readTokens_induction ht front lasting kept (P := fun _ => P) start
      (fun _ _ _ hp _ _ _ => hp) ?_ fun _ _ name m' hl hp _ names _ => find name m' names hl hp
    intro _ _ name m' _ hp _ _ _ _
    rcases font_frame doc (c.scope opened) name m' with kept | ⟨cause, crashed⟩
    · rw [kept]
      exact hp
    · rw [crashed]
      exact down _ cause hp

theorem readContent_frame {doc : Document} {depth : Nat} {opened : List (Option ObjectId)}
    {c : Content} {m : Memory} {P : Frame → Prop} (start : P m.frame)
    (down : ∀ f cause, P f → P { f with crash := some cause })
    (find : ∀ name m, doc.Names c name → P m.frame →
      P (doc.findXObject depth opened c name m).2.frame) :
    P (doc.readContent depth opened c m).2.frame :=
  readContent_frame_lasting doc.lasting_trivial trivial start down fun name m names _ =>
    find name m names

theorem findXObject_down (doc : Document) (depth : Nat) (opened : List (Option ObjectId))
    (c : Content) (name : String) (m : Memory) (h : m.crash ≠ none) :
    (doc.findXObject depth opened c name m).2.crash ≠ none := by
  induction depth using Nat.strongRecOn generalizing opened c name m with
  | ind depth ih =>
    refine findXObject_cases (motive := fun _ f => f.crash ≠ none) doc depth opened c name m
      (fun _ _ _ => h) (fun _ _ _ _ _ _ _ => h) fun id entries data _ _ => ?_
    refine readForm_cases (motive := fun _ f => f.crash ≠ none) doc _ _ id entries data m
      (fun _ _ => h) (fun _ _ _ => h) fun _ _ => ?_
    have below_down : ∀ below content, depth = below + 1 →
        (doc.readContent below (id :: opened) content { m with truncated := false }).2.crash ≠
          none := by
      intro below content hd
      refine readContent_frame (P := fun f => f.crash ≠ none) h (fun _ _ _ => nofun) ?_
      intro name m' _ h'
      exact ih below (by omega) (id :: opened) content name m' h'
    refine enterForm_cases (motive := fun _ f => f.crash ≠ none) doc depth _ id entries data m
      (fun _ => h) (fun _ => h) ?_ ?_
    · intro below content cause after hd _ hrun _
      have crashed := below_down below content hd
      rw [Content.scope] at hrun
      rw [hrun] at crashed
      exact crashed
    · intro below content model after hd _ hrun
      have crashed := below_down below content hd
      rw [Content.scope] at hrun
      rw [hrun] at crashed
      exact ⟨crashed, fun _ _ _ _ => crashed⟩

section Run

variable {doc : Document} {depth : Nat} {opened : List (Option ObjectId)} {c : Content}
  {m after : Memory} {model : Model} (h : doc.readContent depth opened c m = (.ok model, after))

include h

theorem readContent_ink : model.nodes.map Node.ink = (doc.bareNodes c).map Node.ink := by
  obtain ⟨tokens, ht, rfl, -⟩ := readContent_eq_ok h
  exact readTokens_ink ht depth opened m

theorem exists_mem_of_bareNode {bare : Node} (hb : bare ∈ doc.bareNodes c) :
    ∃ n ∈ model.nodes, n.ink = bare.ink := by
  have hi : bare.ink ∈ (doc.bareNodes c).map Node.ink := List.mem_map_of_mem hb
  rw [← readContent_ink h] at hi
  exact List.mem_map.1 hi

theorem exists_mem_of_names {name : String} (hn : doc.Names c name) :
    ∃ n ∈ model.nodes, n.paintedName? = some name := by
  obtain ⟨bare, hb, hname⟩ := hn
  obtain ⟨n, hm, he⟩ := exists_mem_of_bareNode h hb
  refine ⟨n, hm, ?_⟩
  rw [← Node.ink_paintedName? n, he, Node.ink_paintedName?, hname]

theorem exists_mem_of_asksFont {name : String} (hn : doc.AsksFont c name) :
    ∃ n ∈ model.nodes, n.askedFont? = some name := by
  obtain ⟨bare, hb, hname⟩ := hn
  obtain ⟨n, hm, he⟩ := exists_mem_of_bareNode h hb
  refine ⟨n, hm, ?_⟩
  rw [← Node.ink_askedFont? n, he, Node.ink_askedFont?, hname]

theorem flag_iff : model.containsTransparency = true ↔
    (∃ n ∈ doc.bareNodes c, n.isTransparent = true) ∨
      ∃ n ∈ model.nodes, n.painted?.any XObject.isTransparent = true := by
  have hf : model.containsTransparency = model.nodes.any Node.isTransparent := by
    obtain ⟨tokens, -, rfl, -⟩ := readContent_eq_ok h
    exact Model.ofTokens_flag _ _ tokens m
  have hbare : ∀ bare ∈ doc.bareNodes c,
      bare.isTransparent = bare.ink.isTransparent := by
    intro bare hb
    rw [Node.isTransparent_eq, bareNodes_painted? hb, Option.any_none, Bool.or_false]
  have hink : (∃ n ∈ model.nodes, n.ink.isTransparent = true) ↔
      ∃ n ∈ doc.bareNodes c, n.isTransparent = true := by
    have hmap := congrArg (fun nodes => nodes.any Node.isTransparent) (readContent_ink h)
    simp only [List.any_map] at hmap
    rw [Bool.eq_iff_iff, List.any_eq_true, List.any_eq_true] at hmap
    refine hmap.trans (exists_congr fun bare => and_congr_right fun hb => ?_)
    rw [hbare bare hb, Function.comp_apply]
  rw [hf, List.any_eq_true, ← hink, ← exists_or]
  refine exists_congr fun n => ?_
  rw [Node.isTransparent_eq, Bool.or_eq_true, and_or_left]

theorem readContent_lasting {L : Session → Prop} (lasting : doc.Lasting L) (kept : L m.session)
    {P : List Node → Frame → Prop} (start : P [] m.frame)
    (plain : ∀ nodes n frame, P nodes frame → n.paintedName? = none → n.painted? = none →
      n.askedFont? = none → P (nodes ++ [n]) frame)
    (font : ∀ nodes n name m', L m'.session → P nodes m'.frame → n.paintedName? = none →
      n.painted? = none → n.askedFont? = some name → doc.AsksFont c name →
      ((c.scope opened).font doc name m').2.crash = none → P (nodes ++ [n]) m'.frame)
    (paint : ∀ nodes n name m', L m'.session → P nodes m'.frame → n.paintedName? = some name →
      doc.Names c name → (doc.findXObject depth opened c name m').2.crash = none →
      n.painted? = (doc.findXObject depth opened c name m').1.value? →
      P (nodes ++ [n]) (doc.findXObject depth opened c name m').2.frame) :
    P model.nodes after.frame := by
  obtain ⟨tokens, ht, rfl, rfl, calm⟩ := readContent_eq_ok h
  -- That reading came down lasts, so that at the end of this run it did not at any point of it.
  refine readTokens_induction ht (List.prefix_refl tokens) lasting kept
    (P := fun nodes f => f.crash = none → P nodes f) (fun _ => start) ?_ ?_ ?_ calm
  · intro nodes n f hp hn hx ha calm
    exact plain nodes n f (hp calm) hn hx ha
  · intro nodes n name m' hl hp hn hx ha asks calm
    have quiet : ((c.scope opened).font doc name m').2.crash = none := calm
    rcases font_frame doc (c.scope opened) name m' with same | ⟨cause, crashed⟩
    · rw [same] at calm ⊢
      exact font nodes n name m' hl (hp calm) hn hx ha asks quiet
    · rw [crashed] at calm
      cases calm
  · intro nodes n name m' hl hp hn names hx calm
    refine paint nodes n name m' hl (hp ?_) hn names calm hx
    exact Classical.byContradiction fun crashed =>
      findXObject_down doc depth opened c name m' crashed calm

theorem readContent_induction {P : List Node → Frame → Prop} (start : P [] m.frame)
    (plain : ∀ nodes n frame, P nodes frame → n.paintedName? = none → n.painted? = none →
      P (nodes ++ [n]) frame)
    (paint : ∀ nodes n name m', P nodes m'.frame → n.paintedName? = some name →
      doc.Names c name → (doc.findXObject depth opened c name m').2.crash = none →
      n.painted? = (doc.findXObject depth opened c name m').1.value? →
      P (nodes ++ [n]) (doc.findXObject depth opened c name m').2.frame) :
    P model.nodes after.frame :=
  readContent_lasting h doc.lasting_trivial trivial start
    (fun nodes n f hp hn hx _ => plain nodes n f hp hn hx)
    (fun nodes n _ m' _ hp hn hx _ _ _ => plain nodes n m'.frame hp hn hx)
    fun nodes n name m' _ => paint nodes n name m'

/-- A run that ends with a model and has no transparent lookup, told with a state `a` that each
lookup may move on: what a lookup leaves of its name lasts to the end of the run. -/
theorem readContent_lookups {α : Type} {P : α → Frame → Prop} {Q : α → Frame → String → Prop}
    {a : α} (start : P a m.frame)
    (find : ∀ name m a, doc.Names c name → P a m.frame →
      (doc.findXObject depth opened c name m).2.crash = none →
      (doc.findXObject depth opened c name m).1.value?.any XObject.isTransparent = true ∨
        ∃ a', P a' (doc.findXObject depth opened c name m).2.frame ∧
          Q a' (doc.findXObject depth opened c name m).2.frame name ∧
          ∀ other, Q a m.frame other → Q a' (doc.findXObject depth opened c name m).2.frame other) :
    (∃ n ∈ model.nodes, n.painted?.any XObject.isTransparent = true) ∨
      ∃ a', P a' after.frame ∧ ∀ name, doc.Names c name → Q a' after.frame name := by
  have hrun : (∃ n ∈ model.nodes, n.painted?.any XObject.isTransparent = true) ∨
      ∃ a', P a' after.frame ∧
        ∀ n ∈ model.nodes, ∀ name, n.paintedName? = some name → Q a' after.frame name := by
    refine readContent_induction (P := fun nodes f =>
      (∃ n ∈ nodes, n.painted?.any XObject.isTransparent = true) ∨
        ∃ a', P a' f ∧ ∀ n ∈ nodes, ∀ name, n.paintedName? = some name → Q a' f name)
      h (.inr ⟨a, start, by simp⟩) ?_ ?_
    · rintro nodes n f (⟨n', hm, hn⟩ | ⟨a', hp, hall⟩) hname -
      · exact .inl ⟨n', List.mem_append_left _ hm, hn⟩
      · refine .inr ⟨a', hp, fun n' hm name hn => ?_⟩
        rcases List.mem_append.1 hm with hm | hm
        · exact hall n' hm name hn
        · rw [List.mem_singleton.1 hm, hname] at hn
          cases hn
    · rintro nodes n name m' (⟨n', hm, hn⟩ | ⟨a', hp, hall⟩) hname names calm painted
      · exact .inl ⟨n', List.mem_append_left _ hm, hn⟩
      · rcases find name m' a' names hp calm with ht | ⟨more, hp', hq, keep⟩
        · exact .inl ⟨n, List.mem_append_right _ (List.mem_singleton_self n), painted ▸ ht⟩
        · refine .inr ⟨more, hp', fun n' hm other hn => ?_⟩
          rcases List.mem_append.1 hm with hm | hm
          · exact keep other (hall n' hm other hn)
          · rw [List.mem_singleton.1 hm, hname] at hn
            cases hn
            exact hq
  refine hrun.imp_right ?_
  rintro ⟨a', hp, hall⟩
  refine ⟨a', hp, fun name names => ?_⟩
  obtain ⟨n, hm, hn⟩ := exists_mem_of_names h names
  exact hall n hm name hn

end Run

/-- What holds of the kept forms through each lookup holds after the run, however it ends, and where
own ink and each transparent lookup entail a fact, the flag entails it. -/
theorem readContent_keeps {doc : Document} {depth : Nat} {opened : List (Option ObjectId)}
    {c : Content} {m : Memory} {P : KeptForms → Prop} {shown : Prop} (start : P m.forms)
    (ink : ∀ n ∈ doc.bareNodes c, n.isTransparent = true → shown)
    (find : ∀ name m, doc.Names c name → P m.forms →
      P (doc.findXObject depth opened c name m).2.forms ∧
        ((doc.findXObject depth opened c name m).1.value?.any XObject.isTransparent = true →
          shown)) :
    P (doc.readContent depth opened c m).2.forms ∧
      ∀ model, (doc.readContent depth opened c m).1 = .ok model →
        model.containsTransparency = true → shown := by
  constructor
  · exact readContent_frame (P := fun f => P f.forms) start (fun _ _ hp => hp)
      fun name m' names hp => (find name m' names hp).1
  · intro model hm hflag
    have h : doc.readContent depth opened c m = (.ok model, (doc.readContent depth opened c m).2) :=
      Prod.ext hm rfl
    have hrun : P (doc.readContent depth opened c m).2.forms ∧
        ∀ n ∈ model.nodes, n.painted?.any XObject.isTransparent = true → shown := by
      refine readContent_induction (P := fun nodes f => P f.forms ∧
        ∀ n ∈ nodes, n.painted?.any XObject.isTransparent = true → shown) h ⟨start, by simp⟩ ?_ ?_
      · rintro nodes n f ⟨hs, hn⟩ - hp
        refine ⟨hs, fun n' hm => ?_⟩
        rcases List.mem_append.1 hm with hm | hm
        · exact hn n' hm
        · rw [List.mem_singleton.1 hm, hp]
          simp
      · rintro nodes n name m' ⟨hs, hn⟩ - hname - hp
        obtain ⟨hs', hshown⟩ := find name m' hname hs
        refine ⟨hs', fun n' hm => ?_⟩
        rcases List.mem_append.1 hm with hm | hm
        · exact hn n' hm
        · rw [List.mem_singleton.1 hm, hp]
          exact hshown
    rcases (flag_iff h).1 hflag with ⟨n, hm, hn⟩ | ⟨n, hm, hn⟩
    · exact ink n hm hn
    · exact hrun.2 n hm hn

end PdfContent.Document
