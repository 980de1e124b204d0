import PdfContent.Proofs.KeptResources
import PdfContent.Proofs.NestingLimit

/-!
Kept forms against an unlimited nesting depth. Where no form is painted from within itself, a run
that does not meet the nesting limit finds of a content exactly what the content shows, and only
such runs keep anything. So whatever is kept of a form is what painting the form gives in a fresh
session whose limit is never met, however small the limit was under which it was kept.
-/

namespace PdfContent.Document

variable {doc : Document} {c : Content} {name : String}

/-- Inside a content some form is painted from within itself. -/
def Recurs (doc : Document) (c : Content) : Prop :=
  ∃ a number entries data, doc.Reaches c a ∧ doc.PaintsForm a (some number) entries data ∧
    ∃ p x, doc.Reaches c p ∧ doc.Enters {} (some number) p x ∧ doc.Reaches x a

/-- Inside a content no form is painted from within itself, nor one of the forms around it. -/
structure Acyclic (doc : Document) (opened : List (Option ObjectId)) (c : Content) : Prop where
  closed : ∀ a number entries data, doc.Reaches c a →
    doc.PaintsForm a (some number) entries data → some number ∉ opened
  plain : ¬ doc.Recurs c

theorem Recurs.of_reaches {a : Content} (h : doc.Recurs a) (reaches : doc.Reaches c a) :
    doc.Recurs c := by
  obtain ⟨b, number, entries, data, hb, paints, p, x, hp, enters, hx⟩ := h
  exact ⟨b, number, entries, data, reaches.trans hb, paints, p, x, reaches.trans hp, enters, hx⟩

theorem Acyclic.enter {opened : List (Option ObjectId)} (h : doc.Acyclic opened c)
    {id : Option ObjectId} {entries : Dictionary} {data : Bytes} {inner : Content}
    (paints : doc.PaintsForm c id entries data)
    (content : doc.formContent? c.resources entries data = some inner) :
    doc.Acyclic (id :: opened) inner := by
  have reaches : doc.Reaches c inner := .enter .refl paints content
  constructor
  · intro a number entries' data' ha paints' mem
    cases List.mem_cons.1 mem with
    | inl same =>
      subst same
      exact h.plain ⟨a, number, entries', data', reaches.trans ha, paints', c, inner, .refl,
        paints.enters content, ha⟩
    | inr mem => exact h.closed a number entries' data' (reaches.trans ha) paints' mem
  · intro recurs
    exact h.plain (recurs.of_reaches reaches)

theorem Acyclic.of_cons {opened : List (Option ObjectId)} {id : Option ObjectId}
    (h : doc.Acyclic (id :: opened) c) : doc.Acyclic [id] c where
  closed a number entries data ha paints mem := by
    rw [List.mem_singleton] at mem
    exact h.closed a number entries data ha paints (mem ▸ List.mem_cons_self ..)
  plain := h.plain

theorem Acyclic.of_opens {opened : List (Option ObjectId)} {c₀ : Content}
    (acyclic : doc.Acyclic [] c₀) (opens : doc.Opens c₀ opened c) : doc.Acyclic opened c := by
  induction opens with
  | start => exact acyclic
  | enter _ paints _ content ih => exact ih.enter paints content

theorem Acyclic.showsWithin {opened : List (Option ObjectId)} (acyclic : doc.Acyclic opened c)
    (shows : doc.Shows {} False c) : ∃ depth, doc.ShowsWithin False depth opened c := by
  induction shows generalizing opened with
  | here h => exact ⟨0, .here h⟩
  | enter enters _ ih =>
    obtain ⟨-, entries, data, paints, content⟩ := enters
    obtain ⟨depth, within⟩ := ih (acyclic.enter paints content)
    refine ⟨depth + 1, .enter paints (fun indirect => ?_) content within⟩
    obtain ⟨number, rfl⟩ := Option.isSome_iff_exists.1 indirect
    exact acyclic.closed _ number entries data .refl paints

/-- Where no form is painted from within itself, none needs the forms that are open around it. -/
theorem Acyclic.showsPast (acyclic : doc.Acyclic [] c) : doc.ShowsPast c :=
  fun _ _ _ _ _ _ opens paints _ _ _ content shows =>
    ((acyclic.of_opens opens).enter paints content).showsWithin shows

/-- What is found under a name shows transparency when it is painted. -/
def LeadsToTransparency (doc : Document) (c : Content) (name : String) : Prop :=
  ∃ id entries data, doc.Finds c name id entries data ∧
    (doc.name? entries "Subtype" = some "Image" ∧ doc.isTransparentImage entries = true ∨
      doc.name? entries "Subtype" = some "Form" ∧
        ∃ a, doc.formContent? c.resources entries data = some a ∧
          (doc.isTransparencyGroup entries = true ∨ doc.Shows {} False a))

theorem leadsToTransparency_image_iff {id : Option ObjectId} {entries : Dictionary} {data : Bytes}
    (found : doc.Finds c name id entries data)
    (subtype : doc.name? entries "Subtype" = some "Image") :
    doc.LeadsToTransparency c name ↔ doc.isTransparentImage entries = true := by
  constructor
  · intro h
    obtain ⟨id', entries', data', found', h⟩ := h
    cases found.symm.trans found'
    cases h with
    | inl h => exact h.2
    | inr h => exact absurd (subtype.symm.trans h.1) (by decide)
  · intro h
    exact ⟨id, entries, data, found, .inl ⟨subtype, h⟩⟩

theorem leadsToTransparency_form_iff {id : Option ObjectId} {entries : Dictionary} {data : Bytes}
    (found : doc.Finds c name id entries data)
    (subtype : doc.name? entries "Subtype" = some "Form") :
    doc.LeadsToTransparency c name ↔
      ∃ a, doc.formContent? c.resources entries data = some a ∧
        (doc.isTransparencyGroup entries = true ∨ doc.Shows {} False a) := by
  constructor
  · intro h
    obtain ⟨id', entries', data', found', h⟩ := h
    cases found.symm.trans found'
    cases h with
    | inl h => exact absurd (subtype.symm.trans h.1) (by decide)
    | inr h => exact h.2
  · intro h
    exact ⟨id, entries, data, found, .inr ⟨subtype, h⟩⟩

theorem not_leadsToTransparency_of_neither (h : doc.FindsNeither c name) :
    ¬ doc.LeadsToTransparency c name := by
  intro leads
  obtain ⟨id, entries, data, found, leads⟩ := leads
  cases leads with
  | inl image => exact (h id entries data found).1 image.1
  | inr form => exact (h id entries data found).2 form.1

theorem shows_iff : doc.Shows {} False c ↔ (∃ n ∈ doc.bareNodes c, n.isTransparent = true) ∨
    ∃ name, doc.Names c name ∧ doc.LeadsToTransparency c name := by
  constructor
  · intro h
    cases h with
    | here h =>
      cases h with
      | ink mem h => exact .inl ⟨_, mem, h⟩
      | image paints h =>
        obtain ⟨id, data, name, names, found⟩ := paints.paints
        exact .inr ⟨name, names, (leadsToTransparency_image_iff found paints.subtype).2 h⟩
      | @kept id _ _ _ _ found _ => cases (keptForm?_empty id).symm.trans found
      | group paints _ h read =>
        obtain ⟨name, names, found⟩ := paints.paints
        obtain ⟨a, content⟩ := Option.isSome_iff_exists.1 (read.resolve_left id)
        exact .inr ⟨name, names,
          (leadsToTransparency_form_iff found paints.subtype).2 ⟨a, content, .inl h⟩⟩
    | enter enters rest =>
      obtain ⟨-, entries, data, paints, content⟩ := enters
      obtain ⟨name, names, found⟩ := paints.paints
      exact .inr ⟨name, names,
        (leadsToTransparency_form_iff found paints.subtype).2 ⟨_, content, .inr rest⟩⟩
  · intro h
    cases h with
    | inl ink =>
      obtain ⟨n, mem, h⟩ := ink
      exact .here (.ink mem h)
    | inr leads =>
      obtain ⟨name, names, id, entries, data, found, h⟩ := leads
      have paints : doc.Paints c id entries data := ⟨name, names, found⟩
      cases h with
      | inl image => exact .here (.image ⟨⟨id, data, paints⟩, image.1⟩ image.2)
      | inr form =>
        obtain ⟨subtype, a, content, h⟩ := form
        exact .of_form (keptForm?_empty id) ⟨paints, subtype⟩ content h

/-- Forms nest at most `height` deep below a content, and no font comes down on the way. -/
def NestsWithin (doc : Document) : Nat → Content → Prop
  | 0, c => doc.OwnFontsSound c ∧ ∀ id entries data, ¬ doc.PaintsForm c id entries data
  | height + 1, c => doc.OwnFontsSound c ∧ ∀ id entries data a,
      doc.PaintsForm c id entries data →
      doc.formContent? c.resources entries data = some a → NestsWithin doc height a

theorem NestsWithin.fontsSound {height : Nat} (h : doc.NestsWithin height c) :
    doc.FontsSound c := by
  induction height generalizing c with
  | zero => exact .of_forms h.1 fun id entries data _ paints => absurd paints (h.2 id entries data)
  | succ height ih =>
    exact .of_forms h.1 fun id entries data a paints content =>
      ih (h.2 id entries data a paints content)

theorem NestsWithin.mono {height height' : Nat} (h : doc.NestsWithin height c)
    (le : height ≤ height') : doc.NestsWithin height' c := by
  induction height' generalizing height c with
  | zero =>
    have hz : height = 0 := by omega
    exact hz ▸ h
  | succ height' ih =>
    cases height with
    | zero => exact ⟨h.1, fun id entries data _ paints => absurd paints (h.2 id entries data)⟩
    | succ height =>
      exact ⟨h.1, fun id entries data a paints content =>
        ih (h.2 id entries data a paints content) (by omega)⟩

def NameNestsWithin (doc : Document) (height : Nat) (c : Content) (name : String) : Prop :=
  ∀ id entries data a, doc.Finds c name id entries data →
    doc.name? entries "Subtype" = some "Form" →
    doc.formContent? c.resources entries data = some a → doc.NestsWithin height a

theorem NameNestsWithin.mono {height height' : Nat} (h : doc.NameNestsWithin height c name)
    (le : height ≤ height') : doc.NameNestsWithin height' c name :=
  fun id entries data a found subtype content => (h id entries data a found subtype content).mono le

theorem NestsWithin.of_names {height : Nat} (own : doc.OwnFontsSound c)
    (h : ∀ name, doc.Names c name → doc.NameNestsWithin height c name) :
    doc.NestsWithin (height + 1) c := by
  refine ⟨own, fun id entries data a paints content => ?_⟩
  obtain ⟨name, names, found⟩ := paints.paints
  exact h name names id entries data a found paints.subtype content

/-- The facts are those of a form with its own resources: whether it is a group, and whether its
content shows transparency. Inside the content no form recurs, and forms nest finitely deep. -/
structure Settled (doc : Document) (number : ObjectId) (facts : FormXObject) (entries : Dictionary)
    (data : Bytes) (a : Content) (height : Nat) : Prop where
  stream : doc.resolve (.reference number) = .stream entries data
  subtype : doc.name? entries "Subtype" = some "Form"
  own : (doc.dictionary? entries "Resources").isSome
  content : ∀ outer, doc.formContent? outer entries data = some a
  acyclic : doc.Acyclic [some number] a
  nests : doc.NestsWithin height a
  group : facts.transparencyGroup = doc.isTransparencyGroup entries
  flag : facts.contentTransparency = true ↔ doc.Shows {} False a

def AllSettled (doc : Document) (kept : KeptForms) : Prop :=
  ∀ number facts, kept.get? number = some facts →
    ∃ entries data a height, doc.Settled number facts entries data a height

theorem allSettled_empty : doc.AllSettled {} := by
  intro number facts found
  cases found

theorem Settled.isTransparent_iff {number : ObjectId} {facts : FormXObject} {entries : Dictionary}
    {data : Bytes} {a : Content} {height : Nat}
    (h : doc.Settled number facts entries data a height) :
    (XObject.form facts).isTransparent = true ↔
      doc.isTransparencyGroup entries = true ∨ doc.Shows {} False a := by
  rw [← h.flag, ← h.group]
  exact isTransparent_mk_iff

/-- What a lookup finds is transparent exactly if painting it shows transparency, and what it
stands for nests finitely deep. -/
def Exact (doc : Document) (c : Content) (name : String) (found : Option XObject) : Prop :=
  (found.any XObject.isTransparent = true ↔ doc.LeadsToTransparency c name) ∧
    ∃ height, doc.NameNestsWithin height c name

namespace Exact

variable {id : Option ObjectId} {entries : Dictionary} {data : Bytes}

theorem neither {found : Option XObject} (plain : found.any XObject.isTransparent = false)
    (none : doc.FindsNeither c name) : doc.Exact c name found := by
  refine ⟨?_, 0, fun id entries data a finds subtype => ?_⟩
  · simp [plain, not_leadsToTransparency_of_neither none]
  · exact absurd subtype (none id entries data finds).2

theorem image {image : ImageXObject} (finds : doc.Finds c name id entries data)
    (subtype : doc.name? entries "Subtype" = some "Image")
    (same : image.isTransparent = doc.isTransparentImage entries) :
    doc.Exact c name (some (.image image)) := by
  refine ⟨?_, 0, fun id' entries' data' a finds' subtype' => ?_⟩
  · rw [leadsToTransparency_image_iff finds subtype, ← same]
    exact Iff.rfl
  · cases finds.symm.trans finds'
    exact absurd (subtype.symm.trans subtype') (by decide)

theorem unread (finds : doc.Finds c name id entries data)
    (subtype : doc.name? entries "Subtype" = some "Form")
    (missing : doc.formContent? c.resources entries data = none) : doc.Exact c name none := by
  refine ⟨?_, 0, fun id' entries' data' a finds' _ content => ?_⟩
  · rw [leadsToTransparency_form_iff finds subtype, missing]
    simp
  · cases finds.symm.trans finds'
    cases missing.symm.trans content

theorem form {facts : FormXObject} {inner : Content} {height : Nat}
    (finds : doc.Finds c name id entries data)
    (subtype : doc.name? entries "Subtype" = some "Form")
    (content : doc.formContent? c.resources entries data = some inner)
    (nests : doc.NestsWithin height inner)
    (shown : (XObject.form facts).isTransparent = true ↔
      doc.isTransparencyGroup entries = true ∨ doc.Shows {} False inner) :
    doc.Exact c name (some (.form facts)) := by
  refine ⟨?_, height, fun id' entries' data' a finds' _ content' => ?_⟩
  · rw [leadsToTransparency_form_iff finds subtype, Option.any_some, shown, content]
    simp
  · cases finds.symm.trans finds'
    cases content.symm.trans content'
    exact nests

end Exact

theorem RunsForm.exact {below : Nat} {opened : List (Option ObjectId)} {m after : Memory}
    {id : Option ObjectId} {entries : Dictionary} {data : Bytes} {inner : Content} {model : Model}
    (h : doc.RunsForm below opened c m id entries data inner model after)
    (finds : doc.Finds c name id entries data)
    (flag : model.containsTransparency = true ↔ doc.Shows {} False inner) {height : Nat}
    (nests : doc.NestsWithin height inner) :
    doc.Exact c name
      (some (.form ⟨doc.isTransparencyGroup entries, model.containsTransparency⟩)) :=
  .form finds h.paints.subtype h.content nests (by rw [isTransparent_mk_iff, flag])

theorem RunsForm.settled {below : Nat} {opened : List (Option ObjectId)} {m after : Memory}
    {number : ObjectId} {entries : Dictionary} {data : Bytes} {inner : Content} {model : Model}
    (h : doc.RunsForm below opened c m (some number) entries data inner model after)
    (acyclic : doc.Acyclic opened c) (finds : doc.Finds c name (some number) entries data)
    (own : (doc.dictionary? entries "Resources").isSome)
    (flag : model.containsTransparency = true ↔ doc.Shows {} False inner) {height : Nat}
    (nests : doc.NestsWithin height inner) :
    doc.Settled number ⟨doc.isTransparencyGroup entries, model.containsTransparency⟩ entries data
      inner height where
  stream := entry?_reference finds
  subtype := h.paints.subtype
  own := own
  content outer := by rw [formContent?_eq_of_own own outer c.resources, h.content]
  acyclic := (acyclic.enter h.paints h.content).of_cons
  nests := nests
  group := rfl
  flag := flag

theorem sound_of_font_calm {scope : Scope} {m : Memory} (read : doc.FontsRead m.session)
    (calm : (scope.font doc name m).2.crash = none) {id : Option ObjectId} {o : PdfObject}
    (entry : scope.fontEntry? doc name = some (id, o)) {d : Dictionary}
    (dictionary : o.dictionary? = some d) (cause : Crash) :
    doc.readFont d ≠ .error (.font (.crash cause)) := by
  intro crashed
  have failed : (Scope.loadKeptFont doc id d m).1 = .error (.font (.crash cause)) := by
    refine (read.loadKeptFont_fst fun number hn => ?_).trans crashed
    subst hn
    rw [fontEntry?_reference entry]
    exact dictionary
  unfold Scope.font at calm
  rw [entry] at calm
  dsimp only at calm
  rw [dictionary] at calm
  change (Memory.noting (Scope.loadKeptFont doc id d m)).2.crash = none at calm
  unfold Memory.noting at calm
  rw [failed] at calm
  exact absurd calm (by simp [Failure.crash?])

/-- At the end of a run that gives a model: the fonts that were looked up are sound, only operators
that name an external object found one, and each name is exact. -/
structure Looked (doc : Document) (c : Content) (nodes : List Node) (height : Nat) : Prop where
  fonts : ∀ n ∈ nodes, ∀ name, n.askedFont? = some name → ∀ id o d cause,
    Scope.fontEntry? doc { resources := c.resources } name = some (id, o) →
    o.dictionary? = some d → doc.readFont d ≠ .error (.font (.crash cause))
  unnamed : ∀ n ∈ nodes, n.paintedName? = none → n.painted? = none
  exact : ∀ n ∈ nodes, ∀ name, n.paintedName? = some name →
    (n.painted?.any XObject.isTransparent = true ↔ doc.LeadsToTransparency c name) ∧
      doc.NameNestsWithin height c name

namespace Looked

variable {nodes : List Node} {n : Node} {height : Nat}

theorem nil : doc.Looked c [] 0 := ⟨by simp, by simp, by simp⟩

theorem plain (h : doc.Looked c nodes height) (named : n.paintedName? = none)
    (painted : n.painted? = none)
    (fonts : ∀ name, n.askedFont? = some name → ∀ id o d cause,
      Scope.fontEntry? doc { resources := c.resources } name = some (id, o) →
      o.dictionary? = some d → doc.readFont d ≠ .error (.font (.crash cause))) :
    doc.Looked c (nodes ++ [n]) height where
  fonts := List.forall_mem_append.2 ⟨h.fonts, List.forall_mem_singleton.2 fonts⟩
  unnamed := List.forall_mem_append.2 ⟨h.unnamed, List.forall_mem_singleton.2 fun _ => painted⟩
  exact := List.forall_mem_append.2 ⟨h.exact, List.forall_mem_singleton.2 fun name hn => by
    cases named.symm.trans hn⟩

theorem paint (h : doc.Looked c nodes height) (named : n.paintedName? = some name)
    (exact : doc.Exact c name n.painted?) : ∃ height', doc.Looked c (nodes ++ [n]) height' := by
  obtain ⟨leads, height', nests⟩ := exact
  refine ⟨max height height', ?_, ?_, ?_⟩
  · refine List.forall_mem_append.2 ⟨h.fonts, List.forall_mem_singleton.2 fun other asked => ?_⟩
    cases asked.symm.trans (Node.askedFont?_of_paintedName? named)
  · refine List.forall_mem_append.2 ⟨h.unnamed, List.forall_mem_singleton.2 fun none => ?_⟩
    cases named.symm.trans none
  · refine List.forall_mem_append.2 ⟨fun n' hm other hn => ?_, List.forall_mem_singleton.2 ?_⟩
    · obtain ⟨hl, hh⟩ := h.exact n' hm other hn
      exact ⟨hl, hh.mono (by omega)⟩
    · intro other hn
      cases named.symm.trans hn
      exact ⟨leads, nests.mono (by omega)⟩

end Looked

theorem Looked.settles {depth : Nat} {opened : List (Option ObjectId)} {m after : Memory}
    {model : Model} (h : doc.readContent depth opened c m = (.ok model, after)) {height : Nat}
    (looked : doc.Looked c model.nodes height) :
    (model.containsTransparency = true ↔ doc.Shows {} False c) ∧
      doc.NestsWithin (height + 1) c := by
  constructor
  · rw [flag_iff h, shows_iff]
    refine or_congr_right ⟨fun hn => ?_, fun hn => ?_⟩
    · obtain ⟨n, hm, ht⟩ := hn
      cases hname : n.paintedName? with
      | none => simp [looked.unnamed n hm hname] at ht
      | some name =>
        obtain ⟨tokens, read, rfl, -⟩ := readContent_eq_ok h
        exact ⟨name, names_of_mem read (List.prefix_refl tokens) hm hname,
          (looked.exact n hm name hname).1.1 ht⟩
    · obtain ⟨name, names, leads⟩ := hn
      obtain ⟨n, hm, hname⟩ := exists_mem_of_names h names
      exact ⟨n, hm, (looked.exact n hm name hname).1.2 leads⟩
  · refine .of_names (fun name id o d cause asks => ?_) fun name names => ?_
    · obtain ⟨n, hm, hname⟩ := exists_mem_of_asksFont h asks
      exact looked.fonts n hm name hname id o d cause
    · obtain ⟨n, hm, hname⟩ := exists_mem_of_names h names
      exact (looked.exact n hm name hname).2

/-- A run keeps all settled, however it ends. Where each lookup that does not come down is exact or
meets the limit, so is the run if it gives a model, or meets the limit. -/
theorem readContent_settles_of {depth : Nat} {opened : List (Option ObjectId)} {m : Memory}
    (read : doc.FontsRead m.session) (settled : doc.AllSettled m.forms)
    (find : ∀ name m, doc.Names c name → doc.FontsRead m.session → doc.AllSettled m.forms →
      doc.AllSettled (doc.findXObject depth opened c name m).2.forms ∧
        ((doc.findXObject depth opened c name m).2.crash = none →
          (doc.findXObject depth opened c name m).2.truncated = true ∨
            doc.Exact c name (doc.findXObject depth opened c name m).1.value?)) :
    doc.AllSettled (doc.readContent depth opened c m).2.forms ∧
      ∀ model after, doc.readContent depth opened c m = (.ok model, after) →
        after.truncated = true ∨ (model.containsTransparency = true ↔ doc.Shows {} False c) ∧
          ∃ height, doc.NestsWithin height c := by
  constructor
  · exact readContent_frame_lasting (P := fun f => doc.AllSettled f.forms)
      doc.lasting_fontsRead read settled (fun _ _ hf => hf)
      fun name m' names read hf => (find name m' names read hf).1
  intro model after h
  have looked : doc.AllSettled after.forms ∧
      (after.truncated = true ∨ ∃ height, doc.Looked c model.nodes height) := by
    refine readContent_lasting h doc.lasting_fontsRead read (P := fun nodes f =>
      doc.AllSettled f.forms ∧ (f.truncated = true ∨ ∃ height, doc.Looked c nodes height))
      ⟨settled, .inr ⟨0, .nil⟩⟩ ?_ ?_ ?_
    · intro nodes n f hf named painted unasked
      refine ⟨hf.1, hf.2.imp_right fun ⟨height, hl⟩ => ⟨height, hl.plain named painted ?_⟩⟩
      intro name asked
      cases unasked.symm.trans asked
    · intro nodes n name m' read hf named painted asked _ calm
      refine ⟨hf.1, hf.2.imp_right fun ⟨height, hl⟩ => ⟨height, hl.plain named painted ?_⟩⟩
      intro other asked' id o d cause entry dictionary
      cases asked.symm.trans asked'
      exact sound_of_font_calm read calm entry dictionary cause
    · intro nodes n name m' read hf named names calm painted
      obtain ⟨settled', outcome⟩ := find name m' names read hf.1
      refine ⟨settled', ?_⟩
      rcases hf.2 with ht | ⟨height, hl⟩
      · exact .inl (findXObject_truncated names ht)
      · exact (outcome calm).imp_right fun hexact => hl.paint named (painted ▸ hexact)
  exact looked.2.imp_right fun ⟨height, hl⟩ =>
    (hl.settles h).imp_right fun nests => ⟨height + 1, nests⟩

theorem findXObject_settles {depth : Nat} {opened : List (Option ObjectId)}
    (acyclic : doc.Acyclic opened c) {m : Memory} (names : doc.Names c name)
    (read : doc.FontsRead m.session) (settled : doc.AllSettled m.forms) :
    doc.AllSettled (doc.findXObject depth opened c name m).2.forms ∧
      ((doc.findXObject depth opened c name m).2.crash = none →
        (doc.findXObject depth opened c name m).2.truncated = true ∨
          doc.Exact c name (doc.findXObject depth opened c name m).1.value?) := by
  -- A form is entered one level below, where it is open and still not painted from within itself.
  induction depth using Nat.strongRecOn generalizing opened c name m with
  | ind depth ih =>
    have inside : ∀ {below id entries data inner},
        doc.EntersForm opened c m id entries data inner → depth = below + 1 →
        doc.AllSettled
            (doc.readContent below (id :: opened) inner { m with truncated := false }).2.forms ∧
          ∀ model after,
            doc.readContent below (id :: opened) inner { m with truncated := false } =
              (.ok model, after) → after.truncated = true ∨
                (model.containsTransparency = true ↔ doc.Shows {} False inner) ∧
                  ∃ height, doc.NestsWithin height inner := by
      intro below id entries data inner he hd
      have acyclic' := acyclic.enter he.paints he.content
      exact readContent_settles_of (m := { m with truncated := false }) read settled
        fun name m' hn hr hm => ih below (by omega) acyclic' hn hr hm
    refine findXObject_enters (motive := fun found f => doc.AllSettled f.forms ∧
      (f.crash = none → f.truncated = true ∨ doc.Exact c name found)) names
      ?neither ?image ?hit ?cut ?limit ?unread ?crash ?run
    case neither => exact fun found plain none => ⟨settled, fun _ => .inr (.neither plain none)⟩
    case image =>
      exact fun id entries data image hf hs ht => ⟨settled, fun _ => .inr (.image hf hs ht)⟩
    case hit =>
      intro id entries data facts hf paints stored
      obtain ⟨number, rfl, hk⟩ := Option.bind_eq_some_iff.1 stored
      obtain ⟨entries', data', a, height, h⟩ := settled number facts hk
      cases (entry?_reference hf).symm.trans h.stream
      exact ⟨settled, fun _ =>
        .inr (.form hf h.subtype (h.content c.resources) h.nests h.isTransparent_iff)⟩
    case cut =>
      intro id entries data _ paints _ some mem
      obtain ⟨number, rfl⟩ := Option.isSome_iff_exists.1 some
      exact absurd mem (acyclic.closed c number entries data .refl paints)
    case limit => exact fun _ _ _ _ _ _ _ _ => ⟨settled, fun _ => .inl rfl⟩
    case unread =>
      exact fun id entries data hf paints _ none =>
        ⟨settled, fun _ => .inr (.unread hf paints.subtype none)⟩
    case crash =>
      intro below id entries data inner cause after hd _ he hrun crashed
      obtain ⟨settled', -⟩ := inside he hd
      rw [hrun] at settled'
      exact ⟨settled', fun calm => by cases crashed.symm.trans calm⟩
    case run =>
      intro below id entries data inner model after hd hf hr
      obtain ⟨settled', ran⟩ := inside hr.toEntersForm hd
      rw [hr.run] at settled'
      have outcome := ran model after hr.run
      refine ⟨⟨settled', fun _ => ?_⟩, ?_⟩
      · cases outcome with
        | inl ht => exact .inl (by simp [ht])
        | inr h =>
          obtain ⟨flag, height, nests⟩ := h
          exact .inr (hr.exact hf flag nests)
      · intro number hid own whole
        subst hid
        have notMet : after.truncated ≠ true := by
          rw [whole]
          exact Bool.false_ne_true
        obtain ⟨flag, height, nests⟩ := outcome.resolve_left notMet
        have kept := hr.settled acyclic hf own flag nests
        exact ⟨Cache.forall_getOrInsert settled' hr.get?_eq_none ⟨_, _, _, _, kept⟩,
          fun _ => .inr (hr.exact hf flag nests)⟩

theorem readContent_settles {depth : Nat} {opened : List (Option ObjectId)} {m : Memory}
    (acyclic : doc.Acyclic opened c) (read : doc.FontsRead m.session)
    (settled : doc.AllSettled m.forms) :
    doc.AllSettled (doc.readContent depth opened c m).2.forms ∧
      ∀ model after, doc.readContent depth opened c m = (.ok model, after) →
        after.truncated = true ∨ (model.containsTransparency = true ↔ doc.Shows {} False c) ∧
          ∃ height, doc.NestsWithin height c :=
  readContent_settles_of read settled fun _ _ names read settled =>
    findXObject_settles acyclic names read settled

theorem findXObject_whole {height depth : Nat} {opened : List (Option ObjectId)}
    (nests : doc.NestsWithin height c) (le : height ≤ depth) {m : Memory}
    (names : doc.Names c name) (whole : m.truncated = false) :
    (doc.findXObject depth opened c name m).2.truncated = false := by
  induction depth using Nat.strongRecOn generalizing height opened c name m with
  | ind depth ih =>
    refine findXObject_enters (motive := fun _ f => f.truncated = false) names
      ?neither ?image ?hit ?cut ?limit ?unread ?crash ?run
    case neither => exact fun _ _ _ => whole
    case image => exact fun _ _ _ _ _ _ _ => whole
    case hit => exact fun _ _ _ _ _ _ _ => whole
    case cut => exact fun _ _ _ _ _ _ _ _ => whole
    case unread => exact fun _ _ _ _ _ _ _ => whole
    case crash => exact fun _ _ _ _ _ _ _ _ _ _ _ _ => whole
    case limit =>
      intro id entries data _ paints _ _ hd
      have hz : height = 0 := by omega
      subst hz
      exact absurd paints (nests.2 id entries data)
    case run =>
      intro below id entries data inner model after hd _ hr
      cases height with
      | zero => exact absurd hr.paints (nests.2 id entries data)
      | succ height =>
        have inside : after.truncated = false := by
          have nests' := nests.2 id entries data inner hr.paints hr.content
          have run : (doc.readContent below (id :: opened) inner
              { m with truncated := false }).2.frame.truncated = false :=
            readContent_frame (P := fun f => f.truncated = false) rfl (fun _ _ hf => hf)
              fun name m' hn hm => ih below (by omega) nests' (by omega) hn hm
          rw [hr.run] at run
          exact run
        have outer : (m.truncated || after.truncated) = false := by
          rw [whole, inside, Bool.or_false]
        exact ⟨outer, fun _ _ _ _ => outer⟩

theorem readContent_whole {height depth : Nat} {opened : List (Option ObjectId)} {m : Memory}
    (nests : doc.NestsWithin height c) (le : height ≤ depth) (whole : m.truncated = false) :
    (doc.readContent depth opened c m).2.truncated = false :=
  readContent_frame (P := fun f => f.truncated = false) whole (fun _ _ hf => hf)
    fun _ _ names whole => findXObject_whole nests le names whole

/-- Painting a settled form in a fresh session whose limit is above its height gives its facts, and
the limit is not met. -/
theorem Settled.findXObject_eq {number : ObjectId} {facts : FormXObject} {entries : Dictionary}
    {data : Bytes} {a : Content} {height : Nat}
    (h : doc.Settled number facts entries data a height) {limit : Nat} (lt : height < limit)
    (found : doc.Finds c name (some number) entries data) (options : Options) :
    (doc.findXObject limit [] c name { session := limited options limit }).1.value? =
        some (.form facts) ∧
      (doc.findXObject limit [] c name { session := limited options limit }).2.truncated =
        false := by
  refine findXObject_cases (motive := fun x f => x = some (.form facts) ∧ f.truncated = false)
    doc limit [] c name _ ?neither ?image ?form
  case neither => exact fun _ _ hf => absurd h.subtype (hf _ _ _ found).2
  case image =>
    intro id' entries' data' image found' subtype' _
    cases found.symm.trans found'
    exact absurd (h.subtype.symm.trans subtype') (by decide)
  case form =>
    intro id' entries' data' found' _
    cases found.symm.trans found'
    refine readForm_cases (motive := fun x f => x.map XObject.form = some (.form facts) ∧
      f.truncated = false) doc _ _ _ _ _ _ (fun _ hk => ?_) (fun _ _ mem => ?_) fun _ _ => ?_
    · cases hk
    · cases mem
    refine enterForm_cases (motive := fun x f => x.map XObject.form = some (.form facts) ∧
      f.truncated = false) doc limit _ _ _ _ _ (fun hl => ?_) (fun hn => ?_) ?_ ?_
    · omega
    · cases hn.symm.trans (h.content c.resources)
    · intro below inner cause after _ content run crashed
      cases content.symm.trans (h.content c.resources)
      have calm := readContent_calm h.nests.fontsSound below [some number]
        (m := { session := limited options limit }) rfl
      rw [show doc.readContent below [some number] a { session := limited options limit } = _
        from run] at calm
      cases crashed.symm.trans calm
    intro below inner model after hd content run
    cases content.symm.trans (h.content c.resources)
    have whole : (doc.readContent below [some number] a
        { session := limited options limit }).2.truncated = false :=
      readContent_whole h.nests (by omega) rfl
    have grows := doc.readContent_grows below [some number] a { session := limited options limit }
    rw [show doc.readContent below [some number] a { session := limited options limit } = _
      from run] at whole grows
    dsimp only at whole
    have flag : model.containsTransparency = true ↔ doc.Shows {} False a := by
      have read : doc.FontsRead (limited options limit) := fun _ _ h => by cases h
      have outcome := (readContent_settles (m := { session := limited options limit }) h.acyclic
        read doc.allSettled_empty).2 model after run
      exact (outcome.resolve_left (by simp [whole])).1
    have same : (⟨doc.isTransparencyGroup entries, model.containsTransparency⟩ : FormXObject) =
        facts := by
      have hflag : model.containsTransparency = facts.contentTransparency :=
        Bool.eq_iff_iff.2 (flag.trans h.flag.symm)
      rw [hflag, ← h.group]
    have fresh : after.forms.get? number = none :=
      grows.get?_eq_none rfl (List.mem_singleton_self _)
    refine ⟨⟨congrArg _ (congrArg _ same), whole⟩, ?_⟩
    intro number' hid _ _
    cases hid
    rw [Cache.getOrInsert_fst, fresh, Option.getD_none]
    exact ⟨congrArg _ (congrArg _ same), whole⟩

def Call.Acyclic (doc : Document) (call : Call) : Prop :=
  ∀ c, call.content? doc = .ok c → doc.Acyclic call.opened c

theorem Call.run_settled {call : Call} {s : Session} (acyclic : call.Acyclic doc)
    (read : doc.FontsRead s) (settled : doc.AllSettled s.forms) :
    doc.AllSettled (call.run doc s).2.forms := by
  refine call.run_cases (motive := fun result => doc.AllSettled result.2.forms) doc s
    (fun _ _ => settled) (fun _ _ _ _ => settled) ?_
  intro c tokens result after hc _ h
  have settled' : doc.AllSettled (doc.readContent (s.options.formLimit - call.opened.length)
      call.opened c { session := s }).2.forms :=
    (readContent_settles (m := { session := s }) (acyclic c hc) read settled).1
  rw [h] at settled'
  exact settled'

theorem after_settled {history : List Call} {s : Session}
    (acyclic : ∀ call ∈ history, call.Acyclic doc) (read : doc.FontsRead s)
    (settled : doc.AllSettled s.forms) : doc.AllSettled (doc.after history s).forms := by
  induction history generalizing s with
  | nil => exact settled
  | cons call history ih =>
    apply ih
    · intro other mem
      exact acyclic other (List.mem_cons_of_mem _ mem)
    · exact doc.lasting_fontsRead.run call read
    · exact Call.run_settled (acyclic call (List.mem_cons_self ..)) read settled

/-- Contents and numbers that go up together leave no way back to a form. -/
theorem Acyclic.of_stages {stage : Nat → Content} {number : Nat → ObjectId}
    (injective : Function.Injective number)
    (step : ∀ k id entries data, doc.PaintsForm (stage k) id entries data →
      id = some (number k) ∧ ∀ a, doc.formContent? (stage k).resources entries data = some a →
        a = stage (k + 1)) (k : Nat) : doc.Acyclic [] (stage k) := by
  have reach : ∀ {i a}, doc.Reaches (stage i) a → ∃ j, i ≤ j ∧ a = stage j := by
    intro i a h
    induction h with
    | refl => exact ⟨i, le_refl i, rfl⟩
    | tail _ enters ih =>
      obtain ⟨j, le, rfl⟩ := ih
      obtain ⟨id, -, entries, data, paints, content⟩ := enters
      exact ⟨j + 1, by omega, (step j id entries data paints).2 _ content⟩
  constructor
  · intro a other entries data _ _ mem
    cases mem
  · intro recurs
    obtain ⟨b, other, entries, data, hb, paints, p, x, hp, enters, hx⟩ := recurs
    obtain ⟨i, -, rfl⟩ := reach hp
    obtain ⟨-, entries', data', paints', content⟩ := enters
    obtain ⟨hi, hnext⟩ := step i _ _ _ paints'
    cases hnext x content
    obtain ⟨j, le, rfl⟩ := reach hx
    have same : number i = number j :=
      Option.some.inj (hi.symm.trans (step j _ _ _ paints).1)
    have := injective same
    omega

def paintThird : Content := ⟨some (naming "C" 7), Bytes.ofUtf8 "/C Do"⟩

def insideThird : Content := ⟨some multiplied, Bytes.ofUtf8 "/GS gs f"⟩

/-- The first form paints the second one and that the third one, which fills under a blend mode. -/
def stackedForms : Document where
  objects := [
    (⟨5, 0⟩, .stream (formEntries (naming "B" 6)) paintSecond.data),
    (⟨6, 0⟩, .stream (formEntries (naming "C" 7)) paintThird.data),
    (⟨7, 0⟩, .stream (formEntries multiplied) insideThird.data)]

def stackedStage : Nat → Content
  | 0 => paintFirst
  | 1 => paintSecond
  | 2 => paintThird
  | _ => insideThird

theorem stackedForms_acyclic (k : Nat) : stackedForms.Acyclic [] (stackedStage k) := by
  have injective : Function.Injective fun k : Nat => (⟨k + 5, 0⟩ : ObjectId) := by
    intro i j h
    simpa using h
  refine .of_stages injective ?_ k
  intro k id entries data paints
  match k with
  | 0 =>
    have names : (stackedForms.bareNodes paintFirst).filterMap Node.paintedName? = ["A"] := by
      decide +kernel
    obtain ⟨rfl, rfl, rfl⟩ := paints.eq_of_names names rfl
    exact ⟨rfl, fun a content => eq_of_formContent? content rfl rfl⟩
  | 1 =>
    have names : (stackedForms.bareNodes paintSecond).filterMap Node.paintedName? = ["B"] := by
      decide +kernel
    obtain ⟨rfl, rfl, rfl⟩ := paints.eq_of_names names rfl
    exact ⟨rfl, fun a content => eq_of_formContent? content rfl rfl⟩
  | 2 =>
    have names : (stackedForms.bareNodes paintThird).filterMap Node.paintedName? = ["C"] := by
      decide +kernel
    obtain ⟨rfl, rfl, rfl⟩ := paints.eq_of_names names rfl
    exact ⟨rfl, fun a content => eq_of_formContent? content rfl rfl⟩
  | k + 3 =>
    have names : (stackedForms.bareNodes insideThird).filterMap Node.paintedName? = [] := by
      decide +kernel
    obtain ⟨other, hn, -⟩ := paints.paints
    rw [names_iff] at hn
    simp [stackedStage, names] at hn

/-- Whatever analyses left in a session of a form, under however small a limit, is what painting
the form gives in a fresh session under every limit from some point on, none of which is met; it
does not matter under which name and with which other resources the form is painted. -/
theorem kept_after_eq_unlimited {options : Options} {history : List Call} {number : ObjectId}
    {facts : FormXObject} (acyclic : ∀ call ∈ history, call.Acyclic doc)
    (kept : (doc.after history { options }).forms.get? number = some facts) :
    ∃ least, ∀ limit, least ≤ limit → ∀ (fresh : Options) (resources : Option Dictionary)
      (name : String) (o : PdfObject),
      Scope.entry? doc { resources } "XObject" name = some (some number, o) →
        ((doc.streamResources limit { resources }).xobject name
            { session := limited fresh limit }).1 = .ok (some (.form facts)) ∧
          ((doc.streamResources limit { resources }).xobject name
            { session := limited fresh limit }).2.truncated = false := by
  have settled : doc.AllSettled (doc.after history { options }).forms :=
    after_settled acyclic (doc.faithful_fresh options).fonts doc.allSettled_empty
  obtain ⟨entries, data, a, height, h⟩ := settled number facts kept
  refine ⟨height + 1, fun limit le fresh resources name o entry => ?_⟩
  cases (entry?_reference entry).symm.trans h.stream
  have found : doc.Finds ⟨resources, []⟩ name (some number) entries data := entry
  have lt : height < limit := by omega
  obtain ⟨value, whole⟩ := h.findXObject_eq lt found fresh
  rw [streamResources_eq]
  exact ⟨Found.value?_eq_some.1 value, whole⟩

theorem kept_after_eq_unlimited_stackedForms :
    (∀ call ∈ [paintFirst.call, paintThird.call, paintSecond.call],
        call.Acyclic stackedForms) ∧
      (stackedForms.after [paintFirst.call] { options := { formLimit := 2 } }).forms.size = 0 ∧
      (stackedForms.after [paintFirst.call, paintThird.call, paintSecond.call]
        { options := { formLimit := 2 } }).forms.get? ⟨6, 0⟩ = some ⟨false, true⟩ ∧
      ∃ least, ∀ limit, least ≤ limit → ∀ (fresh : Options) (resources : Option Dictionary)
        (name : String) (o : PdfObject),
        Scope.entry? stackedForms { resources } "XObject" name = some (some ⟨6, 0⟩, o) →
          ((stackedForms.streamResources limit { resources }).xobject name
              { session := limited fresh limit }).1 = .ok (some (.form ⟨false, true⟩)) ∧
            ((stackedForms.streamResources limit { resources }).xobject name
              { session := limited fresh limit }).2.truncated = false := by
  have acyclic : ∀ call ∈ [paintFirst.call, paintThird.call, paintSecond.call],
      call.Acyclic stackedForms := by
    intro call mem c hc
    simp only [List.mem_cons, List.not_mem_nil, or_false] at mem
    rcases mem with rfl | rfl | rfl <;> cases hc
    · exact stackedForms_acyclic 0
    · exact stackedForms_acyclic 2
    · exact stackedForms_acyclic 1
  have read : ((stackedForms.after [paintFirst.call, paintThird.call, paintSecond.call]
      { options := { formLimit := 2 } }).forms.get? ⟨6, 0⟩).map
        (fun facts => (facts.transparencyGroup, facts.contentTransparency)) =
      some (false, true) := by
    decide +kernel
  have kept : (stackedForms.after [paintFirst.call, paintThird.call, paintSecond.call]
      { options := { formLimit := 2 } }).forms.get? ⟨6, 0⟩ = some ⟨false, true⟩ := by
    obtain ⟨⟨group, flag⟩, found, same⟩ := Option.map_eq_some_iff.1 read
    cases same
    exact found
  exact ⟨acyclic, by decide +kernel, kept, kept_after_eq_unlimited acyclic kept⟩

end PdfContent.Document
