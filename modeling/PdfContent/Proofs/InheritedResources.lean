import PdfContent.Proofs.Verdicts

/-!
Forms without resources of their own. Such a form has another content under each painter, but a
form that is open is recognised by its number alone. So a content is missed where its form is
painted inside another content of the same form, and along chains where that does not happen the
form is judged under the resources of its painter. The depth that suffices is the number of pairs
of a form and the resources it is interpreted with.
-/

namespace PdfContent.Document

variable {doc : Document}

/-- Each form met on the way from a content is an indirect object that is listed with the resources
it is interpreted with. -/
def CoversForms (doc : Document) (pairs : List (ObjectId × Option Dictionary)) (c₀ : Content) :
    Prop :=
  ∀ c id entries data, doc.Reaches c₀ c → doc.PaintsForm c id entries data →
    ∃ number, id = some number ∧
      (number, (doc.dictionary? entries "Resources").or c.resources) ∈ pairs

/-- On the way from `c₀`, the painter of the content lies within another content of the form that is
painted. -/
def Strays (doc : Document) (c₀ c c' : Content) : Prop :=
  ∃ id a p, doc.Enters {} id c c' ∧ doc.Reaches c₀ p ∧ doc.Enters {} id p a ∧
    doc.Reaches a c ∧ a ≠ c'

/-- A chain of contents, each painting the next, none of which strays. -/
def ReachesStraight (doc : Document) (c₀ : Content) : Content → Prop :=
  Relation.ReflTransGen (fun c c' => (∃ id, doc.Enters {} id c c') ∧ ¬ doc.Strays c₀ c c') c₀

/-- The forms open around a content are different listed objects, each open with one of its contents
around, and the depth that is left suffices for the pairs that are not open. -/
structure Listed (doc : Document) (pairs : List (ObjectId × Option Dictionary)) (c₀ : Content)
    (depth : Nat) (opened : List (Option ObjectId)) (around : Set Content) (c : Content) :
    Prop where
  reaches : doc.Reaches c₀ c
  nodup : opened.Nodup
  listed : ∀ id ∈ opened, ∃ number, id = some number ∧ number ∈ pairs.map Prod.fst
  enough : pairs.length ≤ depth + opened.length
  trail : ∀ id ∈ opened, ∃ a ∈ around, doc.Reaches a c ∧
    ∃ p, doc.Reaches c₀ p ∧ doc.Enters {} id p a

namespace Listed

variable {pairs : List (ObjectId × Option Dictionary)} {c₀ c : Content} {depth : Nat}
  {opened : List (Option ObjectId)} {around : Set Content}

theorem enter {m : Memory} {id : Option ObjectId} {entries : Dictionary} {data : Bytes}
    {inner : Content} (h : doc.Listed pairs c₀ (depth + 1) opened around c)
    (covers : doc.CoversForms pairs c₀)
    (entered : doc.EntersForm opened c m id entries data inner) :
    doc.Listed pairs c₀ depth (id :: opened) (insert inner around) inner := by
  obtain ⟨number, rfl, hpair⟩ := covers c id entries data h.reaches entered.paints
  refine ⟨h.reaches.enter entered.paints entered.content,
    List.nodup_cons.2 ⟨entered.closed rfl, h.nodup⟩, ?_, ?_, ?_⟩
  · intro other hm
    rcases List.mem_cons.1 hm with rfl | hm
    · exact ⟨number, rfl, List.mem_map_of_mem hpair⟩
    · exact h.listed other hm
  · have := h.enough
    rw [List.length_cons]
    omega
  · intro other hm
    rcases List.mem_cons.1 hm with rfl | hm
    · exact ⟨inner, Set.mem_insert inner around, .refl, c, h.reaches,
        entered.paints.enters entered.content⟩
    · obtain ⟨a, ha, hr, painted⟩ := h.trail other hm
      exact ⟨a, Set.mem_insert_of_mem inner ha, hr.enter entered.paints entered.content, painted⟩

theorem depth_ne_zero (h : doc.Listed pairs c₀ depth opened around c)
    (covers : doc.CoversForms pairs c₀) {id : Option ObjectId} {entries : Dictionary}
    {data : Bytes} (paints : doc.PaintsForm c id entries data)
    (closed : id.isSome → id ∉ opened) : depth ≠ 0 := by
  obtain ⟨number, rfl, hpair⟩ := covers c id entries data h.reaches paints
  have enough : (pairs.map Prod.fst).length ≤ depth + opened.length := by
    rw [List.length_map]
    exact h.enough
  have hpos := depth_pos_of_nodup h.nodup h.listed enough (List.mem_map_of_mem hpair) (closed rfl)
  exact Nat.pos_iff_ne_zero.1 hpos

theorem cut (h : doc.Listed pairs c₀ depth opened around c) {id : Option ObjectId}
    {entries : Dictionary} {data : Bytes} {c' : Content}
    (paints : doc.PaintsForm c id entries data) (mem : id ∈ opened)
    (content : doc.formContent? c.resources entries data = some c') :
    c' ∈ around ∪ {c' | doc.Strays c₀ c c'} := by
  obtain ⟨a, ha, hr, p, hp, painted⟩ := h.trail id mem
  by_cases same : a = c'
  · exact .inl (same ▸ ha)
  · exact .inr ⟨id, a, p, paints.enters content, hp, painted, hr, same⟩

end Listed

theorem CoversForms.of_closed {pairs : List (ObjectId × Option Dictionary)}
    {contents : List Content}
    (closed : ∀ c ∈ contents, ∀ id entries data, doc.PaintsForm c id entries data →
      (∃ number, id = some number ∧
        (number, (doc.dictionary? entries "Resources").or c.resources) ∈ pairs) ∧
      ∀ c', doc.formContent? c.resources entries data = some c' → c' ∈ contents)
    {c₀ : Content} (mem : c₀ ∈ contents) : doc.CoversForms pairs c₀ := by
  intro c id entries data reaches paints
  have hmem : c ∈ contents := reaches.mem_of_closed
    (fun c hc id entries data c' paints => (closed c hc id entries data paints).2 c') mem
  exact (closed c hmem id entries data paints).1

/-- A form that is cut has its content open further up, or the content strays. -/
theorem guards_of_covers {pairs : List (ObjectId × Option Dictionary)} {c₀ : Content}
    (covers : doc.CoversForms pairs c₀) :
    doc.Guards (fun c => {c' | doc.Strays c₀ c c'}) (doc.Listed pairs c₀) where
  enter known entered := known.enter covers entered
  cut known paints mem content := known.cut paints mem content
  limit known paints closed := known.depth_ne_zero covers paints closed

theorem ReachesStraight.reaches {c₀ c : Content} (h : doc.ReachesStraight c₀ c) :
    doc.Reaches c₀ c :=
  Relation.ReflTransGen.mono (fun _ _ step => step.1) _ _ h

theorem Explored.mem_of_reachesStraight {kept : KeptForms} {c₀ : Content} {done : Set Content}
    (h : doc.Explored {} (fun c => {c' | doc.Strays c₀ c c'}) done ∅ kept) {c : Content}
    (straight : doc.ReachesStraight c₀ c) (mem : c₀ ∈ done) : c ∈ done := by
  induction straight with
  | refl => exact mem
  | tail _ step ih =>
    obtain ⟨⟨id, enters⟩, straight⟩ := step
    rcases (h.clean _ ih).forms id _ enters with (hd | ha) | hs
    · exact hd
    · exact ha.elim
    · exact absurd hs straight

def borrowerEntries : Dictionary :=
  [(Bytes.ofUtf8 "Subtype", .name (Bytes.ofUtf8 "Form"))]

def lent : Dictionary := naming "A" 5 ++ multiplied

/-- The first form has no resources of its own and paints the second one where they name it; the
second one paints the first one under a blend mode. -/
def lentForms : Document where
  objects := [
    (⟨5, 0⟩, .stream borrowerEntries (Bytes.ofUtf8 "/GS gs f /B Do")),
    (⟨6, 0⟩, .stream (formEntries lent) (Bytes.ofUtf8 "/A Do"))]

def insideLender : Content := ⟨some lent, Bytes.ofUtf8 "/A Do"⟩

def insideBorrower (resources : Dictionary) : Content :=
  ⟨some resources, Bytes.ofUtf8 "/GS gs f /B Do"⟩

def bothNamed : Dictionary :=
  [(Bytes.ofUtf8 "XObject", .dictionary [(Bytes.ofUtf8 "A", .reference ⟨5, 0⟩),
    (Bytes.ofUtf8 "B", .reference ⟨6, 0⟩)])]

def paintBoth : Content := ⟨some bothNamed, Bytes.ofUtf8 "/A Do"⟩

theorem eq_of_formContent?_borrower {resources : Dictionary} {c : Content}
    (h : lentForms.formContent? (some resources) borrowerEntries
      (Bytes.ofUtf8 "/GS gs f /B Do") = some c) : c = insideBorrower resources := by
  obtain ⟨bytes, -, hb, -, rfl⟩ := formContent?_eq_some h
  cases hb
  rfl

theorem lentForms_names :
    (lentForms.bareNodes paintSecond).filterMap Node.paintedName? = ["B"] ∧
      (lentForms.bareNodes insideLender).filterMap Node.paintedName? = ["A"] ∧
      (lentForms.bareNodes (insideBorrower lent)).filterMap Node.paintedName? = ["B"] ∧
      (lentForms.bareNodes paintBoth).filterMap Node.paintedName? = ["A"] ∧
      (lentForms.bareNodes (insideBorrower bothNamed)).filterMap Node.paintedName? = ["B"] := by
  decide +kernel

theorem lentForms_subtypes :
    lentForms.name? borrowerEntries "Subtype" = some "Form" ∧
      lentForms.name? (formEntries lent) "Subtype" = some "Form" := by
  decide +kernel

theorem paintsForm_insideLender {id : Option ObjectId} {entries : Dictionary} {data : Bytes}
    (h : lentForms.PaintsForm insideLender id entries data) :
    id = some ⟨5, 0⟩ ∧ entries = borrowerEntries ∧ data = Bytes.ofUtf8 "/GS gs f /B Do" := by
  obtain ⟨-, names, -⟩ := lentForms_names
  exact h.eq_of_names names rfl

theorem paintsForm_paintSecond_lent {id : Option ObjectId} {entries : Dictionary} {data : Bytes}
    (h : lentForms.PaintsForm paintSecond id entries data) :
    id = some ⟨6, 0⟩ ∧ entries = formEntries lent ∧ data = Bytes.ofUtf8 "/A Do" := by
  obtain ⟨names, -⟩ := lentForms_names
  exact h.eq_of_names names rfl

theorem not_paintsForm_insideBorrower_lent {id : Option ObjectId} {entries : Dictionary}
    {data : Bytes} : ¬ lentForms.PaintsForm (insideBorrower lent) id entries data := by
  intro h
  obtain ⟨-, -, names, -⟩ := lentForms_names
  have found := h.finds_of_names names
  cases found

theorem lentForms_closed : ∀ c ∈ [paintSecond, insideLender, insideBorrower lent],
    ∀ id entries data, lentForms.PaintsForm c id entries data →
      (∃ number, id = some number ∧
        (number, (lentForms.dictionary? entries "Resources").or c.resources) ∈
          [(⟨6, 0⟩, some lent), (⟨5, 0⟩, some lent)]) ∧
      ∀ c', lentForms.formContent? c.resources entries data = some c' →
        c' ∈ [paintSecond, insideLender, insideBorrower lent] := by
  intro c hm id entries data paints
  simp only [List.mem_cons, List.not_mem_nil, or_false] at hm ⊢
  rcases hm with rfl | rfl | rfl
  · obtain ⟨rfl, rfl, rfl⟩ := paintsForm_paintSecond_lent paints
    exact ⟨⟨_, rfl, .inl rfl⟩, fun c' h => .inr (.inl (eq_of_formContent? h rfl rfl))⟩
  · obtain ⟨rfl, rfl, rfl⟩ := paintsForm_insideLender paints
    exact ⟨⟨_, rfl, .inr rfl⟩, fun c' h => .inr (.inr (eq_of_formContent?_borrower h))⟩
  · exact absurd paints not_paintsForm_insideBorrower_lent

theorem insideLender_paints : lentForms.PaintsForm insideLender (some ⟨5, 0⟩) borrowerEntries
    (Bytes.ofUtf8 "/GS gs f /B Do") := by
  obtain ⟨-, names, -⟩ := lentForms_names
  exact ⟨⟨"A", names_of_eq names, rfl⟩, lentForms_subtypes.1⟩

theorem insideBorrower_showsHere : lentForms.ShowsHere {} False (insideBorrower lent) := by
  have ink : ∃ n ∈ lentForms.bareNodes (insideBorrower lent), n.isTransparent = true :=
    List.any_eq_true.1 (by decide +kernel)
  obtain ⟨n, hn, ht⟩ := ink
  exact .ink hn ht

theorem enters_insideLender {c : Content} (names : lentForms.Names c "B")
    (finds : lentForms.Finds c "B" (some ⟨6, 0⟩) (formEntries lent) (Bytes.ofUtf8 "/A Do")) :
    lentForms.Enters {} (some ⟨6, 0⟩) c insideLender := by
  obtain ⟨tokens, ht⟩ := insideLender_paints.paints.ofBytes
  exact PaintsForm.enters ⟨⟨"B", names, finds⟩, lentForms_subtypes.2⟩
    (formContent?_of_ofBytes rfl ht)

theorem enters_insideBorrower {c : Content} {resources : Dictionary}
    (paints : lentForms.PaintsForm c (some ⟨5, 0⟩) borrowerEntries
      (Bytes.ofUtf8 "/GS gs f /B Do")) (effect : c.resources = some resources) :
    lentForms.Enters {} (some ⟨5, 0⟩) c (insideBorrower resources) := by
  obtain ⟨tokens, ht⟩ := (Shows.here insideBorrower_showsHere).ofBytes
  refine paints.enters ?_
  rw [formContent?_of_ofBytes rfl ht, effect]
  rfl

theorem paintBoth_closed :
    ∀ c ∈ [paintBoth, insideBorrower bothNamed, insideLender, insideBorrower lent],
    ∀ id entries data, lentForms.PaintsForm c id entries data →
      (∃ number, id = some number ∧
        (number, (lentForms.dictionary? entries "Resources").or c.resources) ∈
          [(⟨5, 0⟩, some bothNamed), (⟨6, 0⟩, some lent), (⟨5, 0⟩, some lent)]) ∧
      ∀ c', lentForms.formContent? c.resources entries data = some c' →
        c' ∈ [paintBoth, insideBorrower bothNamed, insideLender, insideBorrower lent] := by
  intro c hm id entries data paints
  obtain ⟨-, -, -, names₁, names₂⟩ := lentForms_names
  simp only [List.mem_cons, List.not_mem_nil, or_false] at hm ⊢
  rcases hm with rfl | rfl | rfl | rfl
  · obtain ⟨rfl, rfl, rfl⟩ := paints.eq_of_names names₁ rfl
    exact ⟨⟨_, rfl, .inl rfl⟩, fun c' h => .inr (.inl (eq_of_formContent?_borrower h))⟩
  · obtain ⟨rfl, rfl, rfl⟩ := paints.eq_of_names names₂ rfl
    exact ⟨⟨_, rfl, .inr (.inl rfl)⟩,
      fun c' h => .inr (.inr (.inl (eq_of_formContent? h rfl rfl)))⟩
  · obtain ⟨rfl, rfl, rfl⟩ := paintsForm_insideLender paints
    exact ⟨⟨_, rfl, .inr (.inr rfl)⟩,
      fun c' h => .inr (.inr (.inr (eq_of_formContent?_borrower h)))⟩
  · exact absurd paints not_paintsForm_insideBorrower_lent

theorem paintBoth_reaches_insideLender : lentForms.Reaches paintBoth insideLender := by
  obtain ⟨-, -, -, names₁, names₂⟩ := lentForms_names
  have paints : lentForms.PaintsForm paintBoth (some ⟨5, 0⟩) borrowerEntries
      (Bytes.ofUtf8 "/GS gs f /B Do") := ⟨⟨"A", names_of_eq names₁, rfl⟩, lentForms_subtypes.1⟩
  have first := enters_insideBorrower paints rfl
  exact .tail (.single ⟨_, first⟩) ⟨_, enters_insideLender (names_of_eq names₂) rfl⟩

theorem reachesStraight_insideLender :
    lentForms.ReachesStraight paintSecond insideLender := by
  obtain ⟨names, -⟩ := lentForms_names
  refine Relation.ReflTransGen.single ⟨⟨_, enters_insideLender (names_of_eq names) rfl⟩, ?_⟩
  -- The second form has resources of its own, so it has one content only.
  rintro ⟨id, a, p, ⟨-, entries, data, paints, -⟩, -, ⟨-, entries', data', paints', content⟩,
    -, other⟩
  obtain ⟨rfl, rfl, rfl⟩ := paintsForm_paintSecond_lent paints
  obtain ⟨rfl, rfl⟩ := paints.stream_eq paints'
  exact other (eq_of_formContent? content rfl rfl)

theorem not_strays_insideBorrower :
    ¬ lentForms.Strays paintSecond insideLender (insideBorrower lent) := by
  rintro ⟨id, a, p, ⟨-, entries, data, paints, -⟩, reaches,
    ⟨-, entries', data', paints', content⟩, -, other⟩
  obtain ⟨rfl, rfl, rfl⟩ := paintsForm_insideLender paints
  have mem : p ∈ [paintSecond, insideLender, insideBorrower lent] := reaches.mem_of_closed
    (fun c hc id entries data c' paints => (lentForms_closed c hc id entries data paints).2 c')
    (List.mem_cons_self ..)
  simp only [List.mem_cons, List.not_mem_nil, or_false] at mem
  rcases mem with rfl | rfl | rfl
  · cases (paintsForm_paintSecond_lent paints').1
  · obtain ⟨-, rfl, rfl⟩ := paintsForm_insideLender paints'
    exact other (eq_of_formContent?_borrower content)
  · exact not_paintsForm_insideBorrower_lent paints'

/-- In a fresh session a form without resources of its own is judged under those of its painter,
wherever a chain of contents that do not stray leads to it, where no font comes down. -/
theorem analyzeContent_flag_of_inherited {options : Options} {data : Bytes}
    {resources : Option Dictionary} {pairs : List (ObjectId × Option Dictionary)}
    (covers : doc.CoversForms pairs ⟨resources, data⟩) (limit : pairs.length < options.formLimit)
    (fonts : doc.FontsSound ⟨resources, data⟩)
    {painter : Content} (chain : doc.ReachesStraight ⟨resources, data⟩ painter)
    {id : Option ObjectId} {entries : Dictionary} {form bytes : Bytes}
    (paints : doc.PaintsForm painter id entries form)
    (borrows : doc.dictionary? entries "Resources" = none)
    (decoded : doc.streamData entries form = .ok bytes)
    (straight : ¬ doc.Strays ⟨resources, data⟩ painter ⟨painter.resources, bytes⟩)
    (shows : doc.ShowsHere {} False ⟨painter.resources, bytes⟩) :
    ∃ model, (doc.analyzeContent data resources { options }).1 = .ok model ∧
      model.containsTransparency = true := by
  obtain ⟨tokens, ht⟩ := (Shows.here shows).ofBytes
  have content : doc.formContent? painter.resources entries form =
      some ⟨painter.resources, bytes⟩ := by
    rw [formContent?_of_ofBytes decoded ht, borrows, Option.none_or]
  have whole : doc.ReachesStraight ⟨resources, data⟩ ⟨painter.resources, bytes⟩ :=
    chain.tail ⟨⟨id, paints.enters content⟩, straight⟩
  obtain ⟨tokens₀, ht₀⟩ : ∃ tokens, Token.ofBytes data = .ok tokens :=
    (Shows.of_reaches whole.reaches (.here shows)).ofBytes
  obtain ⟨model, after, ha, hrun⟩ := analyzeContent_eq_ok fonts ht₀ { options }
  refine ⟨model, congrArg Prod.fst ha, ?_⟩
  have holds : doc.Listed pairs ⟨resources, data⟩ options.formLimit []
      (insert ⟨resources, data⟩ ∅) ⟨resources, data⟩ := by
    refine ⟨.refl, List.nodup_nil, by simp, ?_, by simp⟩
    rw [List.length_nil]
    omega
  have explored := readContent_explored_of hrun (.refl doc {} _ (insert ⟨resources, data⟩ ∅))
    fun name m' done hn he calm => findXObject_explored (guards_of_covers covers) holds hn he calm
  refine explored.resolve_right ?_
  rintro ⟨done, -, hmem, he⟩
  exact (he.clean _ (he.mem_of_reachesStraight whole hmem)).here shows

theorem analyzeContent_flag_of_inherited_lentForms :
    lentForms.CoversForms [(⟨6, 0⟩, some lent), (⟨5, 0⟩, some lent)] paintSecond ∧
      2 < ({} : Options).formLimit ∧ lentForms.FontsSound paintSecond ∧
      lentForms.ReachesStraight paintSecond insideLender ∧
      lentForms.PaintsForm insideLender (some ⟨5, 0⟩) borrowerEntries
        (Bytes.ofUtf8 "/GS gs f /B Do") ∧
      lentForms.dictionary? borrowerEntries "Resources" = none ∧
      ¬ lentForms.Strays paintSecond insideLender (insideBorrower lent) ∧
      lentForms.ShowsHere {} False (insideBorrower lent) ∧
      ∃ model, (lentForms.analyzeContent paintSecond.data paintSecond.resources
          { options := {} }).1 = .ok model ∧ model.containsTransparency = true := by
  have covers : lentForms.CoversForms [(⟨6, 0⟩, some lent), (⟨5, 0⟩, some lent)] paintSecond :=
    .of_closed lentForms_closed (List.mem_cons_self ..)
  have limit : 2 < ({} : Options).formLimit := by decide
  have fonts : lentForms.FontsSound paintSecond :=
    .of_closed (fun c hc id entries data c' paints =>
      (lentForms_closed c hc id entries data paints).2 c') (by decide +kernel)
      (List.mem_cons_self ..)
  exact ⟨covers, limit, fonts, reachesStraight_insideLender, insideLender_paints, rfl,
    not_strays_insideBorrower, insideBorrower_showsHere,
    analyzeContent_flag_of_inherited covers limit fonts reachesStraight_insideLender
      insideLender_paints rfl rfl not_strays_insideBorrower insideBorrower_showsHere⟩

theorem analyzeContent_flag_ne_inherited :
    lentForms.CoversForms
        [(⟨5, 0⟩, some bothNamed), (⟨6, 0⟩, some lent), (⟨5, 0⟩, some lent)] paintBoth ∧
      3 < ({} : Options).formLimit ∧ lentForms.Reaches paintBoth insideLender ∧
      lentForms.PaintsForm insideLender (some ⟨5, 0⟩) borrowerEntries
        (Bytes.ofUtf8 "/GS gs f /B Do") ∧
      lentForms.dictionary? borrowerEntries "Resources" = none ∧
      lentForms.ShowsHere {} False (insideBorrower lent) ∧
      ¬ ∃ model, (lentForms.analyzeContent paintBoth.data paintBoth.resources
          { options := {} }).1 = .ok model ∧ model.containsTransparency = true := by
  refine ⟨.of_closed paintBoth_closed (List.mem_cons_self ..), by decide,
    paintBoth_reaches_insideLender, insideLender_paints, rfl, insideBorrower_showsHere, ?_⟩
  have verdict : (lentForms.verdict paintBoth.call { options := {} }).toOption = some false := by
    decide +kernel
  rintro ⟨model, hm, flag⟩
  have transparent : lentForms.verdict paintBoth.call { options := {} } =
      (Except.ok model).map Model.containsTransparency := congrArg _ hm
  rw [transparent, Except.map, flag] at verdict
  cases verdict

end PdfContent.Document
