import PdfContent.Proofs.ResourceNames
import PdfContent.Proofs.RoundTrip
import PdfContent.Proofs.Verdicts

/-!
A form that a stream paints, and the same form analyzed by itself. Both ways lead to its content
with the same resources, the form being open, and as many levels left below: painting starts one
level further out and enters the form, and analyzing starts inside. In fresh sessions they end the
same, whatever the form paints in turn and whatever the limit leaves out.
-/

namespace PdfContent.Document

def painting (name : String) : Bytes :=
  Byte.slash :: (Bytes.ofUtf8 name ++ Bytes.ofUtf8 " Do")

/-- A name that stands for itself in a stream. -/
def PlainName (name : String) : Prop :=
  ∀ b ∈ Bytes.ofUtf8 name, Byte.isRegular b = true ∧ b ≠ Byte.hash

instance (name : String) : Decidable (PlainName name) :=
  inferInstanceAs (Decidable (∀ b ∈ Bytes.ofUtf8 name, _))

/-- What a lookup found of a form, and why it came down if it did, against what analyzing the form
gave. -/
inductive Agrees : Option XObject → Option Crash → Except Failure Model → Prop
  | down (cause : Crash) : Agrees none (some cause) (.error (.font (.crash cause)))
  | missing {failure : Failure} (quiet : ∀ cause, failure ≠ .font (.crash cause)) :
      Agrees none none (.error failure)
  | found (group : Bool) (model : Model) :
      Agrees (some (.form ⟨group, model.containsTransparency⟩)) none (.ok model)

theorem spells_self {bytes : Bytes}
    (plain : ∀ b ∈ bytes, Byte.isRegular b = true ∧ b ≠ Byte.hash) :
    Operand.Spells bytes bytes := by
  induction bytes with
  | nil => exact .nil
  | cons b rest ih =>
    obtain ⟨first, others⟩ := List.forall_mem_cons.1 plain
    exact .plain first.1 (fun hash => absurd hash first.2) (ih others)

theorem ofBytes_painting {name : String} (plain : PlainName name) :
    Token.ofBytes (painting name) = .ok [.operand (.name name), .operator "Do"] := by
  have ends : Bytes.EndsRun (Bytes.ofUtf8 " Do") := Bytes.endsRun_cons (by decide) _
  have start : skipBlank (painting name) = painting name := skipBlank_of_not_isGap (by decide) _
  have word : Token.ofBytes (Bytes.ofUtf8 "Do" ++ []) = .ok [.operator "Do"] := by
    rw [PlainToken.ofBytes_word Bytes.endsRun_nil (by decide +kernel) (by decide +kernel)
        (by decide),
      Token.ofBytes_nil skipBlank_nil]
    rfl
  have rest : Token.ofBytes (Bytes.ofUtf8 " Do") = .ok [.operator "Do"] :=
    (Token.ofBytes_congr (skipBlank_of_isBlank (by decide) _)).trans word
  have read := Token.readTokens_name (spells_self plain) ends
  rw [Token.ofBytes_cons start read, rest, Bytes.toText_ofUtf8]
  rfl

theorem interpret_painting {name : String} (plain : PlainName name) {r : Resources Memory}
    {m : Memory} (calm : m.crash = none) :
    (∀ cause, (r.xobject name m).2.crash = some cause →
      (interpret r (painting name) m).1 = .error (.font (.crash cause))) ∧
    ((r.xobject name m).2.crash = none → ∃ model node,
      (interpret r (painting name) m).1 = .ok model ∧ model.nodes = [node] ∧ node.name = "Do" ∧
        node.kind = .xobject (some name) (r.xobject name m).1.value?) := by
  have read : Model.ofTokensWhile Memory.goes r m.session.options.collectsWarnings
      [.operand (.name name), .operator "Do"] m =
      Model.ofTokens r m.session.options.collectsWarnings
        [.operand (.name name), .operator "Do"] m := by
    simp only [Model.ofTokensWhile, Model.ofTokens, List.foldl_cons, List.foldl_nil,
      Reading.feedWhile, Memory.goes, calm, Option.isNone_none, if_true, Reading.feed]
  have memory : (Model.ofTokens r m.session.options.collectsWarnings
      [.operand (.name name), .operator "Do"] m).2 = (r.xobject name m).2 :=
    Resolving.lookup_memory "XObject" r.xobject name m
  simp only [interpret, ofBytes_painting plain, read, memory]
  constructor
  · intro cause crashed
    rw [crashed]
  · intro quiet
    rw [quiet]
    refine ⟨_, _, rfl, rfl, rfl, ?_⟩
    rw [← Resolving.lookup_value "XObject"]
    rfl

variable {doc : Document} {id : ObjectId} {entries : Dictionary} {data : Bytes}

theorem content?_form (held : doc.object id = .ok (.stream entries data))
    (resources : Option Dictionary) :
    (Call.form id resources).content? doc = (doc.streamData entries data).map fun bytes =>
      ⟨(doc.dictionary? entries "Resources").or resources, bytes⟩ := by
  simp only [Call.content?, formStream, held, bind, Except.bind]
  cases doc.streamData entries data <;> rfl

theorem analyzeForm_unread (held : doc.object id = .ok (.stream entries data))
    {resources : Option Dictionary} (h : doc.formContent? resources entries data = none)
    (s : Session) : ∃ failure, (doc.analyzeForm id resources s).1 = .error failure ∧
      ∀ cause, failure ≠ .font (.crash cause) := by
  have direct := (Call.form id resources).run_eq doc s
  rw [content?_form held] at direct
  change doc.analyzeForm id resources s = _ at direct
  rw [direct]
  cases hb : doc.streamData entries data with
  | error fault => exact ⟨_, rfl, fun _ h => by cases h⟩
  | ok bytes =>
    cases ht : Token.ofBytes bytes with
    | error fault =>
      have stray : doc.outcome (Call.form id resources).opened
          ⟨(doc.dictionary? entries "Resources").or resources, bytes⟩ s =
            (.error (.stream fault), s) := by
        rw [outcome, readContent, interpret_error ht]
      exact ⟨_, congrArg Prod.fst stray, fun _ h => by cases h⟩
    | ok tokens => cases h.symm.trans (formContent?_of_ofBytes hb ht)

theorem analyzeForm_read (held : doc.object id = .ok (.stream entries data))
    {resources : Option Dictionary} {inner : Content}
    (h : doc.formContent? resources entries data = some inner) (s : Session) :
    doc.analyzeForm id resources s = doc.outcome [some id] inner s := by
  obtain ⟨bytes, tokens, hb, -, rfl⟩ := formContent?_eq_some h
  have direct := (Call.form id resources).run_eq doc s
  rw [content?_form held, hb] at direct
  exact direct

theorem findXObject_agrees {c : Content} {name : String} (names : doc.Names c name)
    (finds : doc.Finds c name (some id) entries data)
    (subtype : doc.name? entries "Subtype" = some "Form")
    (held : doc.object id = .ok (.stream entries data)) {options : Options}
    (limit : 1 ≤ options.formLimit) :
    Agrees (doc.findXObject options.formLimit [] c name { session := { options } }).1.value?
      (doc.findXObject options.formLimit [] c name { session := { options } }).2.crash
      (doc.analyzeForm id c.resources { options }).1 := by
  have same : ∀ {other entries' data'}, doc.Finds c name other entries' data' →
      other = some id ∧ entries' = entries ∧ data' = data := fun found => by
    cases finds.symm.trans found
    exact ⟨rfl, rfl, rfl⟩
  have analyzed : ∀ {below inner}, options.formLimit = below + 1 →
      doc.formContent? c.resources entries data = some inner →
      (doc.analyzeForm id c.resources { options }).1 =
        (doc.readContent below [some id] inner { session := { options } }).1 := by
    intro below inner depth content
    have left : options.formLimit - [some id].length = below := by
      rw [depth]
      rfl
    rw [analyzeForm_read held content, outcome, left]
  refine findXObject_enters (motive := fun found f => Agrees found f.crash _) names ?neither ?image
    ?hit ?cut ?limit ?unread ?crash ?run
  case neither =>
    intro _ _ neither
    exact absurd subtype (neither _ _ _ finds).2
  case image =>
    intro other entries' data' _ found image
    obtain ⟨-, rfl, -⟩ := same found
    rw [subtype] at image
    exact absurd (Option.some.inj image) (by decide)
  case hit =>
    intro other _ _ _ found _ kept
    obtain ⟨rfl, -⟩ := same found
    cases kept
  case cut =>
    intro _ _ _ _ _ _ _ mem
    cases mem
  case limit => exact fun _ _ _ _ _ _ _ none => by omega
  -- In the cases left both ways read the same content, with one form open around it.
  case unread =>
    intro other entries' data' found _ _ unread
    obtain ⟨-, rfl, rfl⟩ := same found
    obtain ⟨failure, direct, quiet⟩ := analyzeForm_unread held unread { options }
    rw [direct]
    exact .missing quiet
  case crash =>
    intro below other entries' data' inner cause after depth found entered run crashed
    obtain ⟨rfl, rfl, rfl⟩ := same found
    rw [analyzed depth entered.content, congrArg Prod.fst run]
    change Agrees none after.crash (.error (.font (.crash cause)))
    rw [crashed]
    exact .down cause
  case run =>
    intro below other entries' data' inner model after depth found entered
    obtain ⟨rfl, rfl, rfl⟩ := same found
    obtain ⟨tokens, -, -, -, quiet⟩ := readContent_eq_ok entered.run
    have agrees : Agrees
        (some (.form ⟨doc.isTransparencyGroup entries', model.containsTransparency⟩)) after.crash
        (doc.analyzeForm id c.resources { options }).1 := by
      rw [analyzed depth entered.content, congrArg Prod.fst entered.run, quiet]
      exact .found _ model
    exact ⟨agrees, fun _ _ _ _ => agrees⟩

/-- In fresh sessions with the same resources and options, painting a form comes down where
analyzing the form does. Else painting finds its flag where analyzing gives that flag, and nothing
where analyzing fails. -/
theorem analyzeContent_painting_iff (doc : Document) {name : String} (plain : PlainName name)
    {resources category entries : Dictionary} {id : ObjectId} {data : Bytes}
    (categories : doc.dictionary? resources "XObject" = some category)
    (entry : category.entry? name = some (.reference id))
    (held : doc.object id = .ok (.stream entries data))
    (subtype : doc.name? entries "Subtype" = some "Form") {options : Options}
    (limit : 1 ≤ options.formLimit) :
    (∃ cause,
      (doc.analyzeContent (painting name) (some resources) { options }).1 =
          .error (.font (.crash cause)) ∧
        (doc.analyzeForm id (some resources) { options }).1 = .error (.font (.crash cause))) ∨
    ∃ model node found,
      (doc.analyzeContent (painting name) (some resources) { options }).1 = .ok model ∧
      model.nodes = [node] ∧ node.name = "Do" ∧ node.kind = .xobject (some name) found ∧
      (∀ flag, (∃ form, found = some (.form form) ∧ form.contentTransparency = flag) ↔
        ∃ inner, (doc.analyzeForm id (some resources) { options }).1 = .ok inner ∧
          inner.containsTransparency = flag) ∧
      (found = none ↔
        ∃ failure, (doc.analyzeForm id (some resources) { options }).1 = .error failure) ∧
      ∀ cause, (doc.analyzeForm id (some resources) { options }).1 ≠
        .error (.font (.crash cause)) := by
  let c : Content := ⟨some resources, painting name⟩
  have finds : doc.Finds c name (some id) entries data := by
    have behind : doc.resolve (.reference id) = .stream entries data := by
      rw [resolve, held]
      rfl
    simp only [Finds, Scope.entry?, c, categories, entry, behind, Option.bind_eq_bind,
      Option.bind_some, Option.pure_def, PdfObject.reference?]
  have names : doc.Names c name :=
    names_of_mem (ofBytes_painting plain) (List.prefix_refl _)
      (show _ ∈ (doc.readTokens 0 [] c _ { session := {} }).1.nodes from
        List.mem_singleton_self _) rfl
  have agrees := findXObject_agrees names finds subtype held limit
  obtain ⟨down, whole⟩ := interpret_painting plain
    (r := doc.streamResources options.formLimit (c.scope [])) (m := { session := { options } }) rfl
  have lookup : (doc.streamResources options.formLimit (c.scope [])).xobject name =
      doc.findXObject options.formLimit [] c name := by
    rw [streamResources_eq]
    rfl
  have painted : (doc.analyzeContent (painting name) (some resources) { options }).1 =
      (interpret (doc.streamResources options.formLimit (c.scope [])) (painting name)
        { session := { options } }).1 := rfl
  rw [lookup, ← painted] at down whole
  generalize (doc.findXObject options.formLimit [] c name { session := { options } }).1.value? =
    found at agrees whole
  generalize (doc.findXObject options.formLimit [] c name { session := { options } }).2.crash =
    crash at agrees down whole
  generalize (doc.analyzeForm id c.resources { options }).1 = direct at agrees ⊢
  cases agrees with
  | down cause => exact .inl ⟨cause, down cause rfl, rfl⟩
  | missing quiet =>
    obtain ⟨model, node, read, nodes, called, kind⟩ := whole rfl
    refine .inr ⟨model, node, none, read, nodes, called, kind, fun flag => ?_, ?_, fun cause => ?_⟩
    · constructor <;> rintro ⟨_, h, -⟩ <;> cases h
    · exact ⟨fun _ => ⟨_, rfl⟩, fun _ => rfl⟩
    · exact fun h => quiet cause (Except.error.inj h)
  | found group inner =>
    obtain ⟨model, node, read, nodes, called, kind⟩ := whole rfl
    refine .inr ⟨model, node, _, read, nodes, called, kind, fun flag => ⟨?_, ?_⟩, ?_,
      fun _ h => by cases h⟩
    · rintro ⟨form, same, rfl⟩
      cases same
      exact ⟨inner, rfl, rfl⟩
    · rintro ⟨other, same, rfl⟩
      cases same
      exact ⟨_, rfl, rfl⟩
    · constructor
      · intro h
        cases h
      · rintro ⟨_, h⟩
        cases h

def recurringResources : Dictionary :=
  (Bytes.ofUtf8 "XObject", .dictionary [(Bytes.ofUtf8 "A", .reference ⟨5, 0⟩),
    (Bytes.ofUtf8 "B", .reference ⟨6, 0⟩)]) :: multiplied

/-- A form without resources that paints itself and another form, and fills under a blend mode. -/
def recurring : Document where
  objects := [
    (⟨5, 0⟩, .stream [(Bytes.ofUtf8 "Subtype", .name (Bytes.ofUtf8 "Form"))]
      (Bytes.ofUtf8 "/A Do /B Do /GS gs f")),
    (⟨6, 0⟩, .stream (formEntries []) (Bytes.ofUtf8 "/A Do"))]

theorem analyzeContent_painting_iff_recurring :
    ∃ model node form,
      (recurring.analyzeContent (painting "A") (some recurringResources)
        { options := { formLimit := 1 } }).1 = .ok model ∧
      model.nodes = [node] ∧ node.kind = .xobject (some "A") (some (.form form)) ∧
      form.contentTransparency = true := by
  have limit : 1 ≤ ({ formLimit := 1 } : Options).formLimit := by decide
  have category : recurring.dictionary? recurringResources "XObject" =
      some [(Bytes.ofUtf8 "A", .reference ⟨5, 0⟩), (Bytes.ofUtf8 "B", .reference ⟨6, 0⟩)] := rfl
  have direct : recurring.verdict (.form ⟨5, 0⟩ (some recurringResources))
      { options := { formLimit := 1 } } = .ok true := eq_ok_of_toOption (by decide +kernel)
  obtain ⟨inner, read, shows⟩ := map_eq_ok direct
  rcases analyzeContent_painting_iff recurring (show PlainName "A" by decide +kernel) category rfl
    rfl (by decide +kernel) limit with
    ⟨cause, -, crashed⟩ | ⟨model, node, found, run, nodes, -, kind, flag, -⟩
  · cases read.symm.trans crashed
  · obtain ⟨form, rfl, shows⟩ := (flag true).2 ⟨inner, read, shows⟩
    exact ⟨model, node, form, run, nodes, kind, shows⟩

end PdfContent.Document
