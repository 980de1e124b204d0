import PdfContent.Proofs.SessionHistory

/-!
Verdicts. A flag stands for transparency that is really shown, whatever the session has seen. In a
fresh session the flag misses nothing that forms with resources of their own show. In a session
with a history it may: a form that was kept while another one was open stays opaque although the
other one shows transparency, and the verdict is that of a fresh session exactly when the kept
forms hide nothing.
-/

namespace PdfContent.Document

variable {doc : Document} {kept₀ kept : KeptForms} {unread : Prop}

theorem ofBytes_of_mem_bareNodes {c : Content} {n : Node} (h : n ∈ doc.bareNodes c) :
    ∃ tokens, Token.ofBytes c.data = .ok tokens := by
  unfold bareNodes at h
  cases ht : Token.ofBytes c.data with
  | error fault =>
    rw [ht] at h
    cases h
  | ok tokens => exact ⟨tokens, rfl⟩

theorem Paints.ofBytes {c : Content} {id : Option ObjectId} {entries : Dictionary} {data : Bytes}
    (h : doc.Paints c id entries data) : ∃ tokens, Token.ofBytes c.data = .ok tokens := by
  obtain ⟨name, ⟨n, hn, -⟩, -⟩ := h
  exact ofBytes_of_mem_bareNodes hn

theorem Shows.ofBytes {c : Content} (h : doc.Shows kept unread c) :
    ∃ tokens, Token.ofBytes c.data = .ok tokens := by
  cases h with
  | here h =>
    cases h with
    | ink mem _ => exact ofBytes_of_mem_bareNodes mem
    | image paints _ =>
      obtain ⟨id, data, h⟩ := paints.paints
      exact h.ofBytes
    | kept paints _ _ => exact paints.paints.ofBytes
    | group paints _ _ _ => exact paints.paints.ofBytes
  | enter h _ =>
    obtain ⟨-, entries, data, paints, -⟩ := h
    exact paints.paints.ofBytes

theorem Shows.of_sound (sound : doc.Sound kept₀ unread kept) {c : Content}
    (h : doc.Shows kept unread c) : doc.Shows kept₀ unread c := by
  induction h with
  | here h =>
    cases h with
    | ink mem h => exact .here (.ink mem h)
    | image paints h => exact .here (.image paints h)
    | kept paints found h =>
      obtain ⟨number, rfl, hk⟩ := Option.bind_eq_some_iff.1 found
      exact sound.faithful number _ hk h _ _ _ paints
    | group paints fresh h read =>
      exact .here (.group paints (sound.stays.keptForm?_eq_none fresh) h read)
  | enter h _ ih =>
    obtain ⟨fresh, entries, data, paints, content⟩ := h
    exact .enter ⟨sound.stays.keptForm?_eq_none fresh, entries, data, paints, content⟩ ih

/-- Every form met on the way from a content is an indirect object and has resources of its own. -/
def FormsSelfContained (doc : Document) (c₀ : Content) : Prop :=
  ∀ c id entries data, doc.Reaches c₀ c → doc.PaintsForm c id entries data →
    id.isSome ∧ (doc.dictionary? entries "Resources").isSome

theorem FormsSelfContained.indirect {c₀ : Content} (h : doc.FormsSelfContained c₀) :
    doc.FormsIndirect c₀ := fun c id entries data reaches paints =>
  (h c id entries data reaches paints).1

theorem FormsSelfContained.alike {c₀ : Content} (h : doc.FormsSelfContained c₀) :
    doc.FormsRecurAlike c₀ := by
  intro c id entries data a reaches paints content c' entries' data' a' _ paints' content'
  obtain ⟨hid, own⟩ := h c id entries data reaches paints
  obtain ⟨number, rfl⟩ := Option.isSome_iff_exists.1 hid
  obtain ⟨rfl, rfl⟩ := paints.stream_eq paints'
  rw [formContent?_eq_of_own own c'.resources c.resources, content] at content'
  exact (Option.some.inj content').symm

/-- The forms inside the content of an analysis, and the form around it, recur alike. -/
def Call.RecursAlike (doc : Document) (call : Call) : Prop :=
  ∀ c, call.content? doc = .ok c → doc.FormsRecurAlike c ∧ ∀ id ∈ call.opened, doc.Returns id c

theorem verdict_eq_of_unread {call : Call}
    (h : ∀ c tokens, call.content? doc = .ok c → Token.ofBytes c.data ≠ .ok tokens)
    (s s' : Session) : doc.verdict call s = doc.verdict call s' := by
  simp only [verdict, call.run_eq]
  cases hc : call.content? doc with
  | error fault => rfl
  | ok c =>
    cases ht : Token.ofBytes c.data with
    | error fault => simp only [outcome, readContent, interpret_error ht]
    | ok tokens => exact absurd ht (h c tokens hc)

def Call.FontsSound (doc : Document) (call : Call) : Prop :=
  ∀ c, call.content? doc = .ok c → doc.FontsSound c

/-- Where the depth limit is not met and no font comes down, the verdict says what is shown, kept
forms included. -/
theorem verdict_eq_ok {call : Call} {s : Session} {c : Content} {tokens : List Token}
    (ample : doc.Ample s.options [call]) (alike : call.RecursAlike doc)
    (fonts : call.FontsSound doc)
    (hc : call.content? doc = .ok c) (ht : Token.ofBytes c.data = .ok tokens) :
    ∃ flag, doc.verdict call s = .ok flag ∧ (flag = true ↔ doc.Shows s.forms False c) := by
  refine call.run_cases (motive := fun result => ∃ flag,
    result.1.map Model.containsTransparency = .ok flag ∧
      (flag = true ↔ doc.Shows s.forms False c)) doc s ?fault ?stray ?read
  case fault =>
    intro fault hf
    cases hf.symm.trans hc
  case stray =>
    intro c' fault hc' hf
    cases hc'.symm.trans hc
    cases hf.symm.trans ht
  case read =>
    intro c' _ result after hc' ht' h
    cases hc'.symm.trans hc
    obtain ⟨model, after', run⟩ := exists_readContent_eq_ok (fonts c hc) ht'
      (s.options.formLimit - call.opened.length) call.opened (m := { session := s }) rfl
    cases run.symm.trans h
    have indirect := ample.indirect call (List.mem_singleton_self call) c hc
    obtain ⟨hforms, hreturns⟩ := alike c hc
    exact ⟨model.containsTransparency, rfl,
      readContent_flag_iff indirect hforms (call.room ample.limit hc ht) hreturns h⟩

theorem names_iff {c : Content} {name : String} :
    doc.Names c name ↔ name ∈ (doc.bareNodes c).filterMap Node.paintedName? :=
  List.mem_filterMap.symm

theorem names_of_eq {c : Content} {name : String}
    (names : (doc.bareNodes c).filterMap Node.paintedName? = [name]) : doc.Names c name := by
  rw [names_iff, names]
  exact List.mem_singleton_self name

theorem FormsSelfContained.of_closed {contents : List Content}
    (closed : ∀ c ∈ contents, ∀ id entries data, doc.PaintsForm c id entries data →
      (id.isSome ∧ (doc.dictionary? entries "Resources").isSome) ∧
        ∀ c', doc.formContent? c.resources entries data = some c' → c' ∈ contents)
    {c₀ : Content} (mem : c₀ ∈ contents) : doc.FormsSelfContained c₀ := by
  intro c id entries data reaches paints
  have hmem : c ∈ contents := reaches.mem_of_closed
    (fun c hc id entries data c' paints => (closed c hc id entries data paints).2 c') mem
  exact (closed c hmem id entries data paints).1

def naming (name : String) (form : Nat) : Dictionary :=
  [(Bytes.ofUtf8 "XObject", .dictionary [(Bytes.ofUtf8 name, .reference ⟨form, 0⟩)])]

def multiplied : Dictionary :=
  [(Bytes.ofUtf8 "ExtGState", .dictionary [(Bytes.ofUtf8 "GS",
    .dictionary [(Bytes.ofUtf8 "BM", .name (Bytes.ofUtf8 "Multiply"))])])]

def formEntries (resources : Dictionary) : Dictionary :=
  [(Bytes.ofUtf8 "Subtype", .name (Bytes.ofUtf8 "Form")),
    (Bytes.ofUtf8 "Resources", .dictionary resources)]

def paintFirst : Content := ⟨some (naming "A" 5), Bytes.ofUtf8 "/A Do"⟩

def paintSecond : Content := ⟨some (naming "B" 6), Bytes.ofUtf8 "/B Do"⟩

def insideFirst : Content := ⟨some (naming "B" 6 ++ multiplied), Bytes.ofUtf8 "/B Do /GS gs f"⟩

def mutualForms : Document where
  objects := [
    (⟨5, 0⟩, .stream (formEntries (naming "B" 6 ++ multiplied)) insideFirst.data),
    (⟨6, 0⟩, .stream (formEntries (naming "A" 5)) paintFirst.data)]

theorem PaintsForm.finds_of_names {c : Content} {name : String} {id : Option ObjectId}
    {entries : Dictionary} {data : Bytes}
    (names : (doc.bareNodes c).filterMap Node.paintedName? = [name])
    (h : doc.PaintsForm c id entries data) : doc.Finds c name id entries data := by
  obtain ⟨other, hn, hf⟩ := h.paints
  rw [names_iff, names, List.mem_singleton] at hn
  exact hn ▸ hf

theorem PaintsForm.eq_of_names {c : Content} {name : String} {id id' : Option ObjectId}
    {entries entries' : Dictionary} {data data' : Bytes}
    (names : (doc.bareNodes c).filterMap Node.paintedName? = [name])
    (finds : doc.Finds c name id entries data) (h : doc.PaintsForm c id' entries' data') :
    id' = id ∧ entries' = entries ∧ data' = data := by
  cases finds.symm.trans (h.finds_of_names names)
  exact ⟨rfl, rfl, rfl⟩

theorem eq_of_formContent? {outer : Option Dictionary} {entries own : Dictionary}
    {data bytes : Bytes} {c : Content} (h : doc.formContent? outer entries data = some c)
    (resources : doc.dictionary? entries "Resources" = some own)
    (plain : doc.streamData entries data = .ok bytes) : c = ⟨some own, bytes⟩ := by
  obtain ⟨decoded, -, hb, -, rfl⟩ := formContent?_eq_some h
  cases plain.symm.trans hb
  rw [resources, Option.some_or]

theorem mutualForms_names :
    (mutualForms.bareNodes paintFirst).filterMap Node.paintedName? = ["A"] ∧
      (mutualForms.bareNodes paintSecond).filterMap Node.paintedName? = ["B"] ∧
      (mutualForms.bareNodes insideFirst).filterMap Node.paintedName? = ["B"] := by
  decide +kernel

theorem mutualForms_paints {c : Content} (hm : c ∈ [paintFirst, paintSecond, insideFirst])
    {id : Option ObjectId} {entries : Dictionary} {data : Bytes}
    (paints : mutualForms.PaintsForm c id entries data) :
    (id = some ⟨5, 0⟩ ∧ entries = formEntries (naming "B" 6 ++ multiplied) ∧
        data = insideFirst.data) ∨
      (id = some ⟨6, 0⟩ ∧ entries = formEntries (naming "A" 5) ∧ data = paintFirst.data) := by
  simp only [List.mem_cons, List.not_mem_nil, or_false] at hm
  obtain ⟨names₁, names₂, names₃⟩ := mutualForms_names
  rcases hm with rfl | rfl | rfl
  · exact .inl (paints.eq_of_names names₁ rfl)
  · exact .inr (paints.eq_of_names names₂ rfl)
  · exact .inr (paints.eq_of_names names₃ rfl)

theorem mutualForms_closed : ∀ c ∈ [paintFirst, paintSecond, insideFirst], ∀ id entries data,
    mutualForms.PaintsForm c id entries data →
      (id.isSome ∧ (mutualForms.dictionary? entries "Resources").isSome) ∧
        ∀ c', mutualForms.formContent? c.resources entries data = some c' →
          c' ∈ [paintFirst, paintSecond, insideFirst] := by
  intro c hm id entries data paints
  simp only [List.mem_cons, List.not_mem_nil, or_false]
  rcases mutualForms_paints hm paints with ⟨rfl, rfl, rfl⟩ | ⟨rfl, rfl, rfl⟩
  · exact ⟨⟨rfl, rfl⟩, fun c' h => .inr (.inr (eq_of_formContent? h rfl rfl))⟩
  · exact ⟨⟨rfl, rfl⟩, fun c' h => .inl (eq_of_formContent? h rfl rfl)⟩

theorem mutualForms_selfContained {c : Content}
    (h : c ∈ [paintFirst, paintSecond, insideFirst]) : mutualForms.FormsSelfContained c :=
  .of_closed mutualForms_closed h

theorem FontsSound.of_closed {contents : List Content}
    (closed : ∀ c ∈ contents, ∀ id entries data c', doc.PaintsForm c id entries data →
      doc.formContent? c.resources entries data = some c' → c' ∈ contents)
    (unasked : ∀ c ∈ contents, (doc.bareNodes c).filterMap Node.askedFont? = [])
    {c₀ : Content} (mem : c₀ ∈ contents) : doc.FontsSound c₀ := by
  intro c reaches name id o d cause asks
  have none := unasked c (reaches.mem_of_closed closed mem)
  have listed : name ∈ (doc.bareNodes c).filterMap Node.askedFont? := List.mem_filterMap.2 asks
  rw [none] at listed
  cases listed

theorem mutualForms_fontsSound {c : Content} (h : c ∈ [paintFirst, paintSecond, insideFirst]) :
    mutualForms.FontsSound c := by
  refine .of_closed (fun c hc id entries data c' paints =>
    (mutualForms_closed c hc id entries data paints).2 c') ?_ h
  decide +kernel

theorem insideFirst_showsHere : mutualForms.ShowsHere {} False insideFirst := by
  have ink : ∃ n ∈ mutualForms.bareNodes insideFirst, n.isTransparent = true :=
    List.any_eq_true.1 (by decide +kernel)
  obtain ⟨n, hn, ht⟩ := ink
  exact .ink hn ht

theorem paintFirst_paints : mutualForms.PaintsForm paintFirst (some ⟨5, 0⟩)
    (formEntries (naming "B" 6 ++ multiplied)) insideFirst.data :=
  ⟨⟨"A", names_of_eq mutualForms_names.1, rfl⟩, by decide +kernel⟩

theorem paintFirst_content :
    mutualForms.formContent? paintFirst.resources (formEntries (naming "B" 6 ++ multiplied))
      insideFirst.data = some insideFirst := by
  obtain ⟨tokens, ht⟩ := (Shows.here insideFirst_showsHere).ofBytes
  exact formContent?_of_ofBytes rfl ht

theorem mutualForms_shows : mutualForms.Shows {} False paintSecond := by
  have enter : mutualForms.Enters {} (some ⟨6, 0⟩) paintSecond paintFirst := by
    refine ⟨rfl, formEntries (naming "A" 5), paintFirst.data,
      ⟨⟨"B", names_of_eq mutualForms_names.2.1, rfl⟩, by decide +kernel⟩, ?_⟩
    obtain ⟨tokens, ht⟩ := paintFirst_paints.paints.ofBytes
    exact formContent?_of_ofBytes rfl ht
  exact .enter enter (.enter (paintFirst_paints.enters paintFirst_content)
    (.here insideFirst_showsHere))

theorem mutualForms_ample :
    mutualForms.Ample {} [paintSecond.call, paintFirst.call] := by
  refine ⟨by decide, fun call hm c hc => ?_⟩
  refine (mutualForms_selfContained ?_).indirect
  simp only [List.mem_cons, List.not_mem_nil, or_false] at hm ⊢
  rcases hm with rfl | rfl
  · cases hc
    exact .inr (.inl rfl)
  · cases hc
    exact .inl rfl

theorem eq_ok_of_toOption {ε α : Type} {x : Except ε α} {a : α} (h : x.toOption = some a) :
    x = .ok a := by
  cases x with
  | error e => cases h
  | ok b => exact congrArg _ (Option.some.inj h)

/-- Whatever a session has seen, a flag stands for a chain of contents, each painted by the one
before, that ends in transparent painting. -/
theorem shows_of_verdict_after {options : Options} {history : List Call} {call : Call}
    (h : doc.verdict call (doc.after history { options }) = .ok true) :
    ∃ c, call.content? doc = .ok c ∧ doc.Shows {} True c := by
  have sound : doc.Sound {} True (doc.after history { options }).forms :=
    after_sound (.inl trivial) (sound_refl doc {} True)
  exact (Call.run_sound (.inl trivial) sound).2 h

theorem shows_of_verdict_after_mutualForms :
    mutualForms.verdict (.form ⟨6, 0⟩ none)
        (mutualForms.after [paintSecond.call, paintFirst.call] { options := {} }) = .ok true ∧
      ∃ c, (Call.form ⟨6, 0⟩ none).content? mutualForms = .ok c ∧
        mutualForms.Shows {} True c := by
  have h : mutualForms.verdict (.form ⟨6, 0⟩ none)
      (mutualForms.after [paintSecond.call, paintFirst.call] { options := {} }) = .ok true :=
    eq_ok_of_toOption (by decide +kernel)
  exact ⟨h, shows_of_verdict_after h⟩

/-- In a fresh session no transparency is missed that is shown by forms with resources of their
own, however they paint one another, where no font comes down. -/
theorem analyzeContent_flag_of_shows {options : Options} {data : Bytes}
    {resources : Option Dictionary} (limit : doc.objects.length < options.formLimit)
    (forms : doc.FormsSelfContained ⟨resources, data⟩)
    (fonts : doc.FontsSound ⟨resources, data⟩)
    (shows : doc.Shows {} False ⟨resources, data⟩) :
    ∃ model, (doc.analyzeContent data resources { options }).1 = .ok model ∧
      model.containsTransparency = true := by
  obtain ⟨tokens, ht⟩ := shows.ofBytes
  have ample : doc.Ample options [.content data resources] := by
    refine ⟨limit, fun call hm c hc => ?_⟩
    rw [List.mem_singleton.1 hm] at hc
    cases hc
    exact forms.indirect
  have alike : Call.RecursAlike doc (.content data resources) := by
    rintro c hc
    cases hc
    exact ⟨forms.alike, fun id hm => by cases hm⟩
  have sound : Call.FontsSound doc (.content data resources) := by
    rintro c hc
    cases hc
    exact fonts
  obtain ⟨flag, hv, hflag⟩ := verdict_eq_ok (s := { options }) ample alike sound rfl ht
  have hmap : ((doc.analyzeContent data resources { options }).1.map
      Model.containsTransparency) = .ok true := by
    rw [← hflag.2 shows]
    exact hv
  cases hm : (doc.analyzeContent data resources { options }).1 with
  | error failure =>
    rw [hm] at hmap
    cases hmap
  | ok model =>
    rw [hm] at hmap
    exact ⟨model, rfl, Except.ok.inj hmap⟩

theorem analyzeContent_flag_of_shows_mutualForms :
    mutualForms.objects.length < ({} : Options).formLimit ∧
      mutualForms.FormsSelfContained paintSecond ∧ mutualForms.FontsSound paintSecond ∧
      mutualForms.Shows {} False paintSecond ∧
      ∃ model, (mutualForms.analyzeContent paintSecond.data paintSecond.resources
          { options := {} }).1 = .ok model ∧ model.containsTransparency = true := by
  have limit : mutualForms.objects.length < ({} : Options).formLimit := by decide
  have forms : mutualForms.FormsSelfContained paintSecond :=
    mutualForms_selfContained (by simp)
  have fonts : mutualForms.FontsSound paintSecond := mutualForms_fontsSound (by simp)
  exact ⟨limit, forms, fonts, mutualForms_shows,
    analyzeContent_flag_of_shows limit forms fonts mutualForms_shows⟩

/-- In its range of codes the `]` stands before the `[`. -/
def bracketedMap : Bytes := Bytes.ofUtf8 "beginbfrange\n<01> ] <02> [<0041>\nendbfrange"

def bracketedFont : Dictionary :=
  [(Bytes.ofUtf8 "Subtype", .name (Bytes.ofUtf8 "Type1")),
    (Bytes.ofUtf8 "ToUnicode", .reference ⟨5, 0⟩)]

def bracketed : Document where
  objects := [(⟨5, 0⟩, .stream [] bracketedMap)]

def selectBracketed : Content where
  resources := some ((Bytes.ofUtf8 "Font", .dictionary
    [(Bytes.ofUtf8 "F", .dictionary bracketedFont)]) :: multiplied)
  data := Bytes.ofUtf8 "/F 1 Tf /GS gs f"

/-- A font that comes down takes the analysis with it, although the content paints with
transparency. -/
theorem analyzeContent_crash_of_shows :
    bracketed.objects.length < ({} : Options).formLimit ∧
      bracketed.FormsSelfContained selectBracketed ∧
      bracketed.Shows {} False selectBracketed ∧
      (bracketed.analyzeContent selectBracketed.data selectBracketed.resources
        { options := {} }).1.map Model.containsTransparency =
          .error (.font (.crash .endBeforeStart)) := by
  have unnamed : (bracketed.bareNodes selectBracketed).filterMap Node.paintedName? = [] := by
    decide +kernel
  have ink : ∃ n ∈ bracketed.bareNodes selectBracketed, n.isTransparent = true :=
    List.any_eq_true.1 (by decide +kernel)
  have forms : bracketed.FormsSelfContained selectBracketed := by
    refine .of_closed ?_ (List.mem_singleton_self selectBracketed)
    intro c hc id entries data paints
    rw [List.mem_singleton.1 hc] at paints
    obtain ⟨name, names, -⟩ := paints.paints
    rw [names_iff, unnamed] at names
    cases names
  obtain ⟨n, hn, ht⟩ := ink
  refine ⟨by decide, forms, .here (.ink hn ht), ?_⟩
  decide +kernel

/-- A history leaves a verdict as it is in a fresh session exactly when the forms it kept hide no
transparency that the content shows without them. -/
theorem verdict_after_eq_iff {options : Options} {history : List Call} {call : Call}
    (ample : doc.Ample options (call :: history)) (alike : call.RecursAlike doc)
    (fonts : call.FontsSound doc) :
    doc.verdict call (doc.after history { options }) = doc.verdict call { options } ↔
      ∀ c, call.content? doc = .ok c → doc.Shows {} False c →
        doc.Shows (doc.after history { options }).forms False c := by
  have hpast : doc.Ample options history :=
    ⟨ample.limit, fun k hk => ample.indirect k (List.mem_cons_of_mem call hk)⟩
  have hnow : doc.Ample options [call] :=
    ⟨ample.limit, fun k hk => ample.indirect k (List.mem_cons.2 (.inl (List.mem_singleton.1 hk)))⟩
  have sound : doc.Sound {} False (doc.after history { options }).forms :=
    after_sound (.inr hpast) (sound_refl doc {} False)
  by_cases hread : ∃ c tokens, call.content? doc = .ok c ∧ Token.ofBytes c.data = .ok tokens
  · obtain ⟨c, tokens, hc, ht⟩ := hread
    obtain ⟨flag, hv, hflag⟩ := verdict_eq_ok (s := { options }) hnow alike fonts hc ht
    obtain ⟨flag', hv', hflag'⟩ := verdict_eq_ok (s := doc.after history { options })
      ((after_options doc history { options }).symm ▸ hnow) alike fonts hc ht
    have hfaithful : flag' = true → flag = true := fun h => hflag.2 (.of_sound sound (hflag'.1 h))
    rw [hv, hv']
    constructor
    · intro heq c' hc' hshows
      cases hc'.symm.trans hc
      exact hflag'.1 ((Except.ok.inj heq).trans (hflag.2 hshows))
    · intro h
      have hcomplete : flag = true → flag' = true := fun hf => hflag'.2 (h c hc (hflag.1 hf))
      exact congrArg _ (Bool.eq_iff_iff.2 ⟨hfaithful, hcomplete⟩)
  · have hnone : ∀ c tokens, call.content? doc = .ok c → Token.ofBytes c.data ≠ .ok tokens :=
      fun c tokens hc ht => hread ⟨c, tokens, hc, ht⟩
    refine ⟨fun _ c hc hshows => ?_, fun _ => verdict_eq_of_unread hnone _ _⟩
    obtain ⟨tokens, ht⟩ := hshows.ofBytes
    exact absurd ht (hnone c tokens hc)

theorem verdict_after_eq_iff_mutualForms :
    mutualForms.Ample {} [paintSecond.call, paintFirst.call] ∧
      paintSecond.call.RecursAlike mutualForms ∧ paintSecond.call.FontsSound mutualForms ∧
      (mutualForms.verdict paintSecond.call
          (mutualForms.after [paintFirst.call] { options := {} }) =
          mutualForms.verdict paintSecond.call { options := {} } ↔
        ∀ c, paintSecond.call.content? mutualForms = .ok c → mutualForms.Shows {} False c →
          mutualForms.Shows (mutualForms.after [paintFirst.call] { options := {} }).forms False
            c) := by
  have alike : paintSecond.call.RecursAlike mutualForms := by
    intro c hc
    cases hc
    exact ⟨(mutualForms_selfContained (by simp)).alike, fun id hm => by cases hm⟩
  have fonts : paintSecond.call.FontsSound mutualForms := by
    intro c hc
    cases hc
    exact mutualForms_fontsSound (by simp)
  exact ⟨mutualForms_ample, alike, fonts, verdict_after_eq_iff mutualForms_ample alike fonts⟩

/-- Painting the first form keeps the second one as opaque, since the first one is open around it;
the verdict on what paints the second form is then another than in a fresh session. -/
theorem verdict_after_ne :
    mutualForms.objects.length < ({} : Options).formLimit ∧
      mutualForms.verdict paintSecond.call
          (mutualForms.after [paintFirst.call] { options := {} }) ≠
        mutualForms.verdict paintSecond.call { options := {} } := by
  refine ⟨by decide, fun h => ?_⟩
  have late : (mutualForms.verdict paintSecond.call
      (mutualForms.after [paintFirst.call] { options := {} })).toOption = some false := by
    decide +kernel
  have fresh : (mutualForms.verdict paintSecond.call { options := {} }).toOption = some true := by
    decide +kernel
  rw [h, fresh] at late
  cases late

end PdfContent.Document
