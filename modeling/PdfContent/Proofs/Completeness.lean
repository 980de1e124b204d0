import Mathlib.Data.Set.Insert
import PdfContent.Proofs.Soundness

/-!
A stream that is not flagged shows no transparency. A form that is open is passed over, and a form
kept in the meantime may owe its facts to that; both are made up for by the forms around them, but
where an open form is painted with another content than the one it is open with. So the invariant
speaks of all contents explored so far: each shows nothing by itself, and the forms it paints are
explored, are being explored further up, or are lost to it.
-/

namespace PdfContent.Document

variable {doc : Document} {kept₀ kept : KeptForms}

def Returns (doc : Document) (id : Option ObjectId) (a : Content) : Prop :=
  ∀ c entries data c', doc.Reaches a c → doc.PaintsForm c id entries data →
    doc.formContent? c.resources entries data = some c' → c' = a

/-- A form that is painted again somewhere inside itself has the same content there. It can only
be otherwise for a form without resources of its own. -/
def FormsRecurAlike (doc : Document) (c₀ : Content) : Prop :=
  ∀ c id entries data a, doc.Reaches c₀ c → doc.PaintsForm c id entries data →
    doc.formContent? c.resources entries data = some a → doc.Returns id a

structure Clean (doc : Document) (kept₀ : KeptForms) (seen : Set Content) (c : Content) :
    Prop where
  here : ¬ doc.ShowsHere kept₀ False c
  forms : ∀ id c', doc.Enters kept₀ id c c' → c' ∈ seen

theorem Clean.mono {seen seen' : Set Content} {c : Content} (h : doc.Clean kept₀ seen c)
    (sub : seen ⊆ seen') : doc.Clean kept₀ seen' c :=
  ⟨h.here, fun id c' he => sub (h.forms id c' he)⟩

theorem not_shows_of_clean {seen : Set Content} (clean : ∀ c ∈ seen, doc.Clean kept₀ seen c)
    {c : Content} (mem : c ∈ seen) : ¬ doc.Shows kept₀ False c := by
  intro h
  induction h with
  | here h => exact (clean _ mem).here h
  | enter h _ ih => exact ih ((clean _ mem).forms _ _ h)

/-- What is found under a name shows nothing at hand and leads to contents already seen. -/
structure Harmless (doc : Document) (kept₀ : KeptForms) (seen : Set Content) (c : Content)
    (name : String) : Prop where
  image : ∀ id entries data, doc.Finds c name id entries data →
    doc.name? entries "Subtype" = some "Image" → doc.isTransparentImage entries = false
  kept : ∀ id entries data facts, doc.Finds c name id entries data →
    doc.name? entries "Subtype" = some "Form" → keptForm? kept₀ id = some facts →
    facts.isTransparent = false
  form : ∀ id entries data c', doc.Finds c name id entries data →
    doc.name? entries "Subtype" = some "Form" → keptForm? kept₀ id = none →
    doc.formContent? c.resources entries data = some c' →
    doc.isTransparencyGroup entries = false ∧ c' ∈ seen

namespace Harmless

variable {seen seen' : Set Content} {c : Content} {name : String}

theorem mono (h : doc.Harmless kept₀ seen c name) (sub : seen ⊆ seen') :
    doc.Harmless kept₀ seen' c name where
  image := h.image
  kept := h.kept
  form id entries data c' hf hs hk hc := (h.form id entries data c' hf hs hk hc).imp_right (sub ·)

theorem of_neither (h : doc.FindsNeither c name) : doc.Harmless kept₀ seen c name where
  image id entries data hf hs := absurd hs (h id entries data hf).1
  kept id entries data _ hf hs := absurd hs (h id entries data hf).2
  form id entries data _ hf hs := absurd hs (h id entries data hf).2

theorem of_image {id : Option ObjectId} {entries : Dictionary} {data : Bytes}
    (found : doc.Finds c name id entries data)
    (subtype : doc.name? entries "Subtype" = some "Image")
    (h : doc.isTransparentImage entries = false) : doc.Harmless kept₀ seen c name := by
  constructor
  · intro id' entries' data' hf _
    cases found.symm.trans hf
    exact h
  · intro id' entries' data' facts hf hs
    cases found.symm.trans hf
    exact absurd (subtype.symm.trans hs) (by decide)
  · intro id' entries' data' c' hf hs
    cases found.symm.trans hf
    exact absurd (subtype.symm.trans hs) (by decide)

theorem of_form {id : Option ObjectId} {entries : Dictionary} {data : Bytes}
    (found : doc.Finds c name id entries data) (subtype : doc.name? entries "Subtype" = some "Form")
    (kept : ∀ facts, keptForm? kept₀ id = some facts → facts.isTransparent = false)
    (form : keptForm? kept₀ id = none → ∀ c', doc.formContent? c.resources entries data = some c' →
      doc.isTransparencyGroup entries = false ∧ c' ∈ seen) : doc.Harmless kept₀ seen c name := by
  constructor
  · intro id' entries' data' hf hs
    cases found.symm.trans hf
    exact absurd (subtype.symm.trans hs) (by decide)
  · intro id' entries' data' facts hf _ hk
    cases found.symm.trans hf
    exact kept facts hk
  · intro id' entries' data' c' hf _ hk hc
    cases found.symm.trans hf
    exact form hk c' hc

theorem of_fresh {id : Option ObjectId} {entries : Dictionary} {data : Bytes}
    (found : doc.Finds c name id entries data) (subtype : doc.name? entries "Subtype" = some "Form")
    (fresh : keptForm? kept₀ id = none)
    (form : ∀ c', doc.formContent? c.resources entries data = some c' →
      doc.isTransparencyGroup entries = false ∧ c' ∈ seen) : doc.Harmless kept₀ seen c name := by
  refine .of_form found subtype (fun facts hk => ?_) fun _ => form
  cases fresh.symm.trans hk

end Harmless

theorem clean_of_harmless {seen : Set Content} {c : Content}
    (ink : ∀ n ∈ doc.bareNodes c, n.isTransparent = false)
    (names : ∀ name, doc.Names c name → doc.Harmless kept₀ seen c name) :
    doc.Clean kept₀ seen c := by
  constructor
  · rintro (⟨mem, h⟩ | ⟨⟨⟨id, data, name, hn, hf⟩, hs⟩, h⟩ | ⟨⟨⟨name, hn, hf⟩, hs⟩, hk, h⟩ |
      ⟨⟨⟨name, hn, hf⟩, hs⟩, hk, h, read⟩)
    · cases (ink _ mem).symm.trans h
    · cases ((names name hn).image id _ data hf hs).symm.trans h
    · cases ((names name hn).kept _ _ _ _ hf hs hk).symm.trans h
    · obtain ⟨inner, hc⟩ := Option.isSome_iff_exists.1 (read.resolve_left id)
      cases ((names name hn).form _ _ _ inner hf hs hk hc).1.symm.trans h
  · rintro id c' ⟨hk, entries, data, ⟨⟨name, hn, hf⟩, hs⟩, hc⟩
    exact ((names name hn).form id entries data c' hf hs hk hc).2

/-- Contents done with and contents still open around the current one: those done with are clean but
for what is lost to each, and a form kept as opaque since the start has a content done with,
wherever it is painted. -/
structure Explored (doc : Document) (kept₀ : KeptForms) (lost : Content → Set Content)
    (done around : Set Content) (kept : KeptForms) : Prop where
  stays : Stays kept₀ kept
  content : ∀ id facts, kept.get? id = some facts → facts.isTransparent = false →
    kept₀.get? id = none → ∀ c entries data, doc.PaintsForm c (some id) entries data →
    doc.isTransparencyGroup entries = false ∧
      ∃ a ∈ done, doc.formContent? c.resources entries data = some a
  clean : ∀ c ∈ done, doc.Clean kept₀ (done ∪ around ∪ lost c) c

namespace Explored

variable {lost : Content → Set Content} {done around : Set Content}

theorem refl (doc : Document) (kept₀ : KeptForms) (lost : Content → Set Content)
    (around : Set Content) : doc.Explored kept₀ lost ∅ around kept₀ where
  stays _ _ h := h
  content _ _ found _ none := absurd (found.symm.trans none) (by simp)
  clean _ h := h.elim

theorem open_content (h : doc.Explored kept₀ lost done around kept) (c : Content) :
    doc.Explored kept₀ lost done (insert c around) kept where
  stays := h.stays
  content := h.content
  clean a ha := by
    have hsub : done ∪ around ⊆ done ∪ insert c around :=
      Set.union_subset_union_right done (Set.subset_insert c around)
    exact (h.clean a ha).mono (Set.union_subset_union_left (lost a) hsub)

theorem close_content {c : Content} (h : doc.Explored kept₀ lost done (insert c around) kept)
    (clean : doc.Clean kept₀ (done ∪ insert c around ∪ lost c) c) :
    doc.Explored kept₀ lost (insert c done) around kept := by
  have hseen : done ∪ insert c around = insert c done ∪ around := by
    rw [Set.union_insert, Set.insert_union]
  refine ⟨h.stays, ?_, ?_⟩
  · intro id facts hf ht hk c' entries data paints
    obtain ⟨hg, a, ha, hc⟩ := h.content id facts hf ht hk c' entries data paints
    exact ⟨hg, a, Set.mem_insert_of_mem c ha, hc⟩
  · rintro a (rfl | ha)
    · exact hseen ▸ clean
    · exact hseen ▸ h.clean a ha

theorem getOrInsert (h : doc.Explored kept₀ lost done around kept) {number : ObjectId}
    {facts : FormXObject} (fresh : kept.get? number = none)
    (content : ∀ c entries data, doc.PaintsForm c (some number) entries data →
      doc.isTransparencyGroup entries = false ∧
        ∃ a ∈ done, doc.formContent? c.resources entries data = some a) :
    doc.Explored kept₀ lost done around (kept.getOrInsert number facts).2 :=
  ⟨h.stays.getOrInsert facts fresh,
    Cache.forall_getOrInsert h.content fresh fun _ _ => content, h.clean⟩

end Explored

def Trail (doc : Document) (opened : List (Option ObjectId)) (around : Set Content)
    (c : Content) : Prop :=
  ∀ id ∈ opened, ∃ a ∈ around, doc.Reaches a c ∧ doc.Returns id a

theorem Trail.enter {opened : List (Option ObjectId)} {around : Set Content} {c₀ c inner : Content}
    (h : doc.Trail opened around c) (alike : doc.FormsRecurAlike c₀) (reaches : doc.Reaches c₀ c)
    {id : Option ObjectId} {entries : Dictionary} {data : Bytes}
    (paints : doc.PaintsForm c id entries data)
    (content : doc.formContent? c.resources entries data = some inner) :
    doc.Trail (id :: opened) (insert inner around) inner := by
  intro other hm
  rcases List.mem_cons.1 hm with rfl | hm
  · exact ⟨inner, Set.mem_insert inner around, .refl,
      alike c other entries data inner reaches paints content⟩
  · obtain ⟨a, ha, hr, hret⟩ := h other hm
    exact ⟨a, Set.mem_insert_of_mem inner ha, hr.enter paints content, hret⟩

/-- What is known of the forms open around a content. It holds again inside a form that is entered,
it keeps the depth limit away, and it accounts for a form that is cut: the content that the form
has there is open further up, or lost to its painter. -/
structure Guards (doc : Document) (lost : Content → Set Content)
    (known : Nat → List (Option ObjectId) → Set Content → Content → Prop) : Prop where
  enter : ∀ {depth opened around c m id entries data inner}, known (depth + 1) opened around c →
    doc.EntersForm opened c m id entries data inner →
    known depth (id :: opened) (insert inner around) inner
  cut : ∀ {depth opened around c id entries data c'}, known depth opened around c →
    doc.PaintsForm c id entries data → id ∈ opened →
    doc.formContent? c.resources entries data = some c' → c' ∈ around ∪ lost c
  limit : ∀ {depth opened around c id entries data}, known depth opened around c →
    doc.PaintsForm c id entries data → (id.isSome → id ∉ opened) → depth ≠ 0

theorem guards_of_alike {c₀ : Content} (indirect : doc.FormsIndirect c₀)
    (alike : doc.FormsRecurAlike c₀) :
    doc.Guards (fun _ => ∅) fun depth opened around c =>
      doc.Room c₀ depth opened c ∧ doc.Trail opened around c where
  enter known entered :=
    ⟨known.1.enter indirect entered,
      known.2.enter alike known.1.reaches entered.paints entered.content⟩
  cut := by
    intro depth opened around c id entries data c' known paints mem content
    obtain ⟨a, ha, reaches, returns⟩ := known.2 id mem
    exact .inl (returns c entries data c' reaches paints content ▸ ha)
  limit known paints closed := known.1.depth_ne_zero indirect paints closed

namespace Explored

variable {lost : Content → Set Content} {done around : Set Content} {c : Content} {name : String}
  {id : Option ObjectId} {entries : Dictionary} {data : Bytes}

theorem harmless_of_kept (h : doc.Explored kept₀ lost done around kept)
    (found : doc.Finds c name id entries data) (paints : doc.PaintsForm c id entries data)
    {facts : FormXObject} (stored : keptForm? kept id = some facts)
    (ht : facts.isTransparent = false) : doc.Harmless kept₀ (done ∪ around ∪ lost c) c name := by
  obtain ⟨number, rfl, hk⟩ := Option.bind_eq_some_iff.1 stored
  refine .of_form found paints.subtype ?_ ?_
  · intro facts₀ hk₀
    cases (h.stays number facts₀ hk₀).symm.trans hk
    exact ht
  · intro hk₀ c' hc
    obtain ⟨hg, a, ha, hc'⟩ := h.content number facts hk ht hk₀ c entries data paints
    cases hc.symm.trans hc'
    exact ⟨hg, .inl (.inl ha)⟩

theorem harmless_of_open (h : doc.Explored kept₀ lost done around kept)
    (found : doc.Finds c name id entries data) (paints : doc.PaintsForm c id entries data)
    (fresh : keptForm? kept id = none)
    (cut : ∀ c', doc.formContent? c.resources entries data = some c' → c' ∈ around ∪ lost c)
    (hg : doc.isTransparencyGroup entries = false) :
    doc.Harmless kept₀ (done ∪ around ∪ lost c) c name := by
  refine .of_fresh found paints.subtype (h.stays.keptForm?_eq_none fresh) fun c' hc => ?_
  rw [Set.union_assoc]
  exact ⟨hg, .inr (cut c' hc)⟩

theorem harmless_of_run {below : Nat} {opened : List (Option ObjectId)} {m after : Memory}
    {inner : Content} {model : Model} (h : doc.Explored kept₀ lost done around m.forms)
    (found : doc.Finds c name id entries data)
    (run : doc.RunsForm below opened c m id entries data inner model after)
    (hg : doc.isTransparencyGroup entries = false) {done' : Set Content} (mem : inner ∈ done') :
    doc.Harmless kept₀ (done' ∪ around ∪ lost c) c name := by
  have hk₀ := h.stays.keptForm?_eq_none run.fresh
  refine .of_fresh found run.paints.subtype hk₀ fun c' hc => ?_
  cases run.content.symm.trans hc
  exact ⟨hg, .inl (.inl mem)⟩

theorem keep_run {below : Nat} {opened : List (Option ObjectId)} {m after : Memory}
    {number : ObjectId} {inner : Content} {model : Model} {facts : FormXObject}
    (h : doc.Explored kept₀ lost done around after.forms)
    (run : doc.RunsForm below opened c m (some number) entries data inner model after)
    (own : (doc.dictionary? entries "Resources").isSome)
    (hg : doc.isTransparencyGroup entries = false) (mem : inner ∈ done) :
    doc.Explored kept₀ lost done around (after.forms.getOrInsert number facts).2 := by
  refine h.getOrInsert run.get?_eq_none fun c' entries' data' paints => ?_
  obtain ⟨rfl, rfl⟩ := run.paints.stream_eq paints
  refine ⟨hg, inner, mem, ?_⟩
  rw [formContent?_eq_of_own own c'.resources c.resources, run.content]

end Explored

theorem readContent_explored_of {depth : Nat} {opened : List (Option ObjectId)} {c : Content}
    {lost : Content → Set Content} {done around : Set Content} {m after : Memory} {model : Model}
    (h : doc.readContent depth opened c m = (.ok model, after))
    (explored : doc.Explored kept₀ lost done (insert c around) m.forms)
    (find : ∀ name m done, doc.Names c name →
      doc.Explored kept₀ lost done (insert c around) m.forms →
      (doc.findXObject depth opened c name m).2.crash = none →
      (doc.findXObject depth opened c name m).1.value?.any XObject.isTransparent = true ∨
        ∃ done', done ⊆ done' ∧ doc.Explored kept₀ lost done' (insert c around)
          (doc.findXObject depth opened c name m).2.forms ∧
          doc.Harmless kept₀ (done' ∪ insert c around ∪ lost c) c name) :
    model.containsTransparency = true ∨
      ∃ done', done ⊆ done' ∧ c ∈ done' ∧ doc.Explored kept₀ lost done' around after.forms := by
  have hrun := readContent_lookups
    (P := fun done' f => done ⊆ done' ∧ doc.Explored kept₀ lost done' (insert c around) f.forms)
    (Q := fun done' _ name => doc.Harmless kept₀ (done' ∪ insert c around ∪ lost c) c name)
    h ⟨subset_rfl, explored⟩ fun name m' done' names ⟨hsub, he⟩ calm => by
      refine (find name m' done' names he calm).imp_right ?_
      rintro ⟨more, hmore, he', hharm⟩
      refine ⟨more, ⟨hsub.trans hmore, he'⟩, hharm, fun other hother => ?_⟩
      have hseen : done' ∪ insert c around ⊆ more ∪ insert c around :=
        Set.union_subset_union_left _ hmore
      exact hother.mono (Set.union_subset_union_left (lost c) hseen)
  by_cases hflag : model.containsTransparency = true
  · exact .inl hflag
  · have hquiet := mt (flag_iff h).2 hflag
    rw [not_or] at hquiet
    obtain ⟨done', ⟨hsub, he⟩, hall⟩ := hrun.resolve_left hquiet.2
    have hclean : doc.Clean kept₀ (done' ∪ insert c around ∪ lost c) c := by
      refine clean_of_harmless (fun n hn => ?_) hall
      exact Bool.eq_false_iff.2 fun ht => hquiet.1 ⟨n, hn, ht⟩
    exact .inr ⟨insert c done', hsub.trans (Set.subset_insert c done'), Set.mem_insert c done',
      he.close_content hclean⟩

theorem findXObject_explored {lost : Content → Set Content}
    {known : Nat → List (Option ObjectId) → Set Content → Content → Prop}
    (guards : doc.Guards lost known) {depth : Nat} {opened : List (Option ObjectId)} {c : Content}
    {done around : Set Content} (holds : known depth opened around c) {name : String} {m : Memory}
    (names : doc.Names c name) (explored : doc.Explored kept₀ lost done around m.forms)
    (calm : (doc.findXObject depth opened c name m).2.crash = none) :
    (doc.findXObject depth opened c name m).1.value?.any XObject.isTransparent = true ∨
      ∃ done', done ⊆ done' ∧
        doc.Explored kept₀ lost done' around (doc.findXObject depth opened c name m).2.forms ∧
        doc.Harmless kept₀ (done' ∪ around ∪ lost c) c name := by
  induction depth using Nat.strongRecOn generalizing opened c done around name m with
  | ind depth ih =>
    refine findXObject_enters (motive := fun found f => f.crash = none →
      found.any XObject.isTransparent = true ∨ ∃ done', done ⊆ done' ∧
        doc.Explored kept₀ lost done' around f.forms ∧
        doc.Harmless kept₀ (done' ∪ around ∪ lost c) c name) names
      ?neither ?image ?hit ?cut ?limit ?unread ?crash ?run calm
    case neither =>
      intro found _ hf _
      exact .inr ⟨done, subset_rfl, explored, .of_neither hf⟩
    case image =>
      intro id entries data image hf hs ht _
      cases hi : doc.isTransparentImage entries with
      | true => exact .inl (ht.trans hi)
      | false => exact .inr ⟨done, subset_rfl, explored, .of_image hf hs hi⟩
    case hit =>
      intro id entries data facts hf paints stored _
      cases ht : facts.isTransparent with
      | true => exact .inl ht
      | false =>
        exact .inr ⟨done, subset_rfl, explored, explored.harmless_of_kept hf paints stored ht⟩
    case cut =>
      intro id entries data hf paints fresh _ mem _
      cases hg : doc.isTransparencyGroup entries with
      | true => exact .inl rfl
      | false =>
        exact .inr ⟨done, subset_rfl, explored,
          explored.harmless_of_open hf paints fresh (fun c' => guards.cut holds paints mem) hg⟩
    case limit =>
      intro id entries data _ paints _ closed hd _
      exact absurd hd (guards.limit holds paints closed)
    case unread =>
      intro id entries data hf paints fresh hc _
      have hk₀ := explored.stays.keptForm?_eq_none fresh
      refine .inr ⟨done, subset_rfl, explored, .of_fresh hf paints.subtype hk₀ fun c' hc' => ?_⟩
      cases hc.symm.trans hc'
    case crash =>
      intro below id entries data inner cause after _ _ _ _ crashed calm
      cases crashed.symm.trans calm
    case run =>
      intro below id entries data inner model after hd hf hr
      subst hd
      have hrun := readContent_explored_of hr.run (explored.open_content inner)
        fun name m' done' hn he calm =>
          ih below (Nat.lt_succ_self below) (guards.enter holds hr.toEntersForm) hn he calm
      -- Of a form that is found transparent nothing need be known: the stream is flagged anyway.
      by_cases ht : doc.isTransparencyGroup entries = true ∨ model.containsTransparency = true
      · have hfound := isTransparent_mk_iff.2 ht
        exact ⟨fun _ => .inl hfound, fun _ _ _ _ _ => .inl hfound⟩
      · rw [not_or, Bool.not_eq_true] at ht
        obtain ⟨done', hsub, hmem, he⟩ := hrun.resolve_left ht.2
        have hharm := explored.harmless_of_run hf hr ht.1 hmem
        refine ⟨fun _ => .inr ⟨done', hsub, he, hharm⟩, ?_⟩
        rintro number rfl own - -
        exact .inr ⟨done', hsub, he.keep_run hr own ht.1 hmem, hharm⟩

/-- Where the depth limit is not met and forms recur alike, a content is flagged exactly when it
shows transparency, what is kept of forms standing for them. -/
theorem readContent_flag_iff {c : Content} {depth : Nat} {opened : List (Option ObjectId)}
    (indirect : doc.FormsIndirect c) (alike : doc.FormsRecurAlike c)
    (room : doc.Room c depth opened c) (returns : ∀ id ∈ opened, doc.Returns id c)
    {m after : Memory} {model : Model}
    (h : doc.readContent depth opened c m = (.ok model, after)) :
    model.containsTransparency = true ↔ doc.Shows m.forms False c := by
  constructor
  · exact (readContent_sound (.inr ⟨indirect, room⟩) (sound_refl doc m.forms False)).2 model
      (congrArg Prod.fst h)
  · intro hshows
    have trail : doc.Trail opened (insert c ∅) c :=
      fun id hm => ⟨c, Set.mem_insert c ∅, .refl, returns id hm⟩
    have guards := guards_of_alike indirect alike
    have hrun := readContent_explored_of h (.refl doc m.forms (fun _ => ∅) (insert c ∅))
      fun name m' done hn he calm => findXObject_explored guards ⟨room, trail⟩ hn he calm
    refine hrun.resolve_right ?_
    rintro ⟨done, -, hmem, he⟩
    have hclean : ∀ a ∈ done, doc.Clean m.forms done a := by
      intro a ha
      refine (he.clean a ha).mono ?_
      rw [Set.union_empty, Set.union_empty]
    exact not_shows_of_clean hclean hmem hshows

end PdfContent.Document
