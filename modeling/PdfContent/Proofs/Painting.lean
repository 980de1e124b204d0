import Mathlib.Logic.Relation
import PdfContent.Document.Analysis
import PdfContent.Proofs.EndedRuns

/-!
Streams that paint one another. The resources a stream is interpreted with and its bytes decide
what it paints by itself and which external objects it names. A form it paints is a stream again,
with the form's own resources or, lacking them, those of the painter. A stream shows transparency
when a chain of forms leads from it to transparent painting; what a session kept of a form
stands for the form.
-/

namespace PdfContent.Document

abbrev KeptForms := Cache ObjectId FormXObject

/-- A stream to be interpreted: its decoded bytes and the resources in effect. -/
structure Content where
  resources : Option Dictionary
  data : Bytes

def keptForm? (kept : KeptForms) (id : Option ObjectId) : Option FormXObject :=
  id.bind fun id => kept.get? id

def bareResources (doc : Document) (resources : Option Dictionary) : Resources Memory :=
  { Scope.resourcesWith doc none { resources } with
    xobject := Resources.constant fun _ => .ok none }

/-- The nodes of a stream by itself, all external objects left out; none for bytes that are no
tokens. -/
def bareNodes (doc : Document) (c : Content) : List Node :=
  match Token.ofBytes c.data with
  | .ok tokens =>
    (Model.ofTokens (doc.bareResources c.resources) true tokens { session := {} }).1.nodes
  | .error _ => []

def Names (doc : Document) (c : Content) (name : String) : Prop :=
  ∃ n ∈ doc.bareNodes c, n.paintedName? = some name

/-- The name stands for a stream object in the resources in effect; `id` is its number if it is
indirect. -/
def Finds (doc : Document) (c : Content) (name : String) (id : Option ObjectId)
    (entries : Dictionary) (data : Bytes) : Prop :=
  Scope.entry? doc { resources := c.resources } "XObject" name = some (id, .stream entries data)

def Paints (doc : Document) (c : Content) (id : Option ObjectId) (entries : Dictionary)
    (data : Bytes) : Prop :=
  ∃ name, doc.Names c name ∧ doc.Finds c name id entries data

structure PaintsForm (doc : Document) (c : Content) (id : Option ObjectId)
    (entries : Dictionary) (data : Bytes) : Prop where
  paints : doc.Paints c id entries data
  subtype : doc.name? entries "Subtype" = some "Form"

structure PaintsImage (doc : Document) (c : Content) (entries : Dictionary) : Prop where
  paints : ∃ id data, doc.Paints c id entries data
  subtype : doc.name? entries "Subtype" = some "Image"

def isTransparentImage (doc : Document) (image : Dictionary) : Bool :=
  image.has "SMask" || (doc.integer? image "SMaskInData").getD 0 > 0

def formContent? (doc : Document) (outer : Option Dictionary) (entries : Dictionary)
    (data : Bytes) : Option Content :=
  match doc.streamData entries data with
  | .error _ => none
  | .ok data =>
    match Token.ofBytes data with
    | .error _ => none
    | .ok _ => some ⟨(doc.dictionary? entries "Resources").or outer, data⟩

/-- Painting with `Do` a form of which nothing is kept leads from one content to another. -/
def Enters (doc : Document) (kept : KeptForms) (id : Option ObjectId) (c c' : Content) : Prop :=
  keptForm? kept id = none ∧ ∃ entries data, doc.PaintsForm c id entries data ∧
    doc.formContent? c.resources entries data = some c'

/-- A content shows transparency without a further form: by its own ink, by a transparent image,
by a form kept as transparent or by a form that is a transparency group. `unread` says whether a
group counts whose bytes cannot be read. -/
inductive ShowsHere (doc : Document) (kept : KeptForms) (unread : Prop) (c : Content) : Prop
  | ink {n : Node} (mem : n ∈ doc.bareNodes c) (h : n.isTransparent = true)
  | image {entries : Dictionary} (paints : doc.PaintsImage c entries)
      (h : doc.isTransparentImage entries = true)
  | kept {id : Option ObjectId} {entries : Dictionary} {data : Bytes} {facts : FormXObject}
      (paints : doc.PaintsForm c id entries data) (found : keptForm? kept id = some facts)
      (h : facts.isTransparent = true)
  | group {id : Option ObjectId} {entries : Dictionary} {data : Bytes}
      (paints : doc.PaintsForm c id entries data) (fresh : keptForm? kept id = none)
      (h : doc.isTransparencyGroup entries = true)
      (read : unread ∨ (doc.formContent? c.resources entries data).isSome)

/-- A finite chain of contents, each painting the next, ends in one that shows transparency. -/
inductive Shows (doc : Document) (kept : KeptForms) (unread : Prop) : Content → Prop
  | here {c : Content} (h : doc.ShowsHere kept unread c) : Shows doc kept unread c
  | enter {id : Option ObjectId} {c c' : Content} (h : doc.Enters kept id c c')
      (rest : Shows doc kept unread c') : Shows doc kept unread c

def Reaches (doc : Document) : Content → Content → Prop :=
  Relation.ReflTransGen fun c c' => ∃ id, doc.Enters {} id c c'

def AsksFont (doc : Document) (c : Content) (name : String) : Prop :=
  ∃ n ∈ doc.bareNodes c, n.askedFont? = some name

def OwnFontsSound (doc : Document) (c : Content) : Prop :=
  ∀ name id o d cause, doc.AsksFont c name →
    Scope.fontEntry? doc { resources := c.resources } name = some (id, o) →
    o.dictionary? = some d → doc.readFont d ≠ .error (.font (.crash cause))

/-- None of the fonts that are looked up on the way from a content comes down. -/
def FontsSound (doc : Document) (c₀ : Content) : Prop :=
  ∀ c, doc.Reaches c₀ c → doc.OwnFontsSound c

theorem entry?_reference {doc : Document} {scope : Scope} {category name : String} {id : ObjectId}
    {o : PdfObject} (h : scope.entry? doc category name = some (some id, o)) :
    doc.resolve (.reference id) = o := by
  simp only [Scope.entry?, Option.pure_def, Option.bind_eq_bind, Option.bind_eq_some_iff,
    Option.some.injEq, Prod.mk.injEq] at h
  obtain ⟨resources, -, entries, -, entry, -, hr, ho⟩ := h
  cases entry with
  | reference _ =>
    cases hr
    exact ho
  | _ => cases hr

theorem resolve_stream_mem_ids {doc : Document} {id : ObjectId} {entries : Dictionary}
    {data : Bytes} (h : doc.resolve (.reference id) = .stream entries data) : id ∈ doc.ids := by
  simp only [resolve, object] at h
  cases hl : doc.objects.lookup id with
  | none => simp [hl, Except.toOption] at h
  | some o =>
    obtain ⟨front, rest, ho, -⟩ := List.lookup_eq_some_iff.1 hl
    simp [ids, ho]

theorem PaintsForm.mem_ids {doc : Document} {c : Content} {id : ObjectId} {entries : Dictionary}
    {data : Bytes} (h : doc.PaintsForm c (some id) entries data) : id ∈ doc.ids := by
  obtain ⟨name, -, he⟩ := h.paints
  exact resolve_stream_mem_ids (entry?_reference he)

theorem PaintsForm.stream_eq {doc : Document} {c c' : Content} {id : ObjectId}
    {entries entries' : Dictionary} {data data' : Bytes}
    (h : doc.PaintsForm c (some id) entries data)
    (h' : doc.PaintsForm c' (some id) entries' data') : entries = entries' ∧ data = data' := by
  obtain ⟨name, -, he⟩ := h.paints
  obtain ⟨name', -, he'⟩ := h'.paints
  have := (entry?_reference he).symm.trans (entry?_reference he')
  injection this with h₁ h₂
  exact ⟨h₁, h₂⟩

theorem formContent?_eq_some {doc : Document} {outer : Option Dictionary} {entries : Dictionary}
    {data : Bytes} {c : Content} (h : doc.formContent? outer entries data = some c) :
    ∃ bytes tokens, doc.streamData entries data = .ok bytes ∧ Token.ofBytes bytes = .ok tokens ∧
      c = ⟨(doc.dictionary? entries "Resources").or outer, bytes⟩ := by
  unfold formContent? at h
  split at h
  · cases h
  · rename_i bytes hb
    split at h
    · cases h
    · rename_i tokens ht
      exact ⟨bytes, tokens, hb, ht, (Option.some.inj h).symm⟩

theorem formContent?_of_ofBytes {doc : Document} {outer : Option Dictionary} {entries : Dictionary}
    {data bytes : Bytes} {tokens : List Token} (hb : doc.streamData entries data = .ok bytes)
    (ht : Token.ofBytes bytes = .ok tokens) : doc.formContent? outer entries data =
      some ⟨(doc.dictionary? entries "Resources").or outer, bytes⟩ := by
  simp only [formContent?, hb, ht]

theorem formContent?_eq_of_own {doc : Document} {entries : Dictionary}
    (own : (doc.dictionary? entries "Resources").isSome) (outer outer' : Option Dictionary)
    (data : Bytes) :
    doc.formContent? outer entries data = doc.formContent? outer' entries data := by
  obtain ⟨resources, hr⟩ := Option.isSome_iff_exists.1 own
  simp only [formContent?, hr, Option.some_or]

theorem keptForm?_empty (id : Option ObjectId) : keptForm? {} id = none := by
  cases id <;> rfl

theorem PaintsForm.enters {doc : Document} {c c' : Content} {id : Option ObjectId}
    {entries : Dictionary} {data : Bytes} (paints : doc.PaintsForm c id entries data)
    (content : doc.formContent? c.resources entries data = some c') : doc.Enters {} id c c' :=
  ⟨keptForm?_empty id, entries, data, paints, content⟩

theorem Reaches.enter {doc : Document} {c₀ c c' : Content} {id : Option ObjectId}
    {entries : Dictionary} {data : Bytes} (h : doc.Reaches c₀ c)
    (paints : doc.PaintsForm c id entries data)
    (content : doc.formContent? c.resources entries data = some c') : doc.Reaches c₀ c' :=
  h.tail ⟨id, paints.enters content⟩

theorem FontsSound.of_reaches {doc : Document} {c₀ c : Content} (h : doc.FontsSound c₀)
    (reaches : doc.Reaches c₀ c) : doc.FontsSound c :=
  fun c' h' => h c' (reaches.trans h')

theorem FontsSound.of_forms {doc : Document} {c : Content} (own : doc.OwnFontsSound c)
    (forms : ∀ id entries data a, doc.PaintsForm c id entries data →
      doc.formContent? c.resources entries data = some a → doc.FontsSound a) :
    doc.FontsSound c := by
  intro a reaches
  rcases Relation.ReflTransGen.cases_head reaches with rfl | ⟨b, ⟨id, -, entries, data, paints,
    content⟩, rest⟩
  · exact own
  · exact forms id entries data b paints content a rest

theorem Shows.of_reaches {doc : Document} {unread : Prop} {c₀ c : Content}
    (h : doc.Reaches c₀ c) (shows : doc.Shows {} unread c) : doc.Shows {} unread c₀ := by
  induction h using Relation.ReflTransGen.head_induction_on with
  | refl => exact shows
  | head first _ ih => exact .enter first.choose_spec ih

theorem Reaches.mem_of_closed {doc : Document} {contents : List Content}
    (closed : ∀ c ∈ contents, ∀ id entries data c', doc.PaintsForm c id entries data →
      doc.formContent? c.resources entries data = some c' → c' ∈ contents)
    {c₀ c : Content} (h : doc.Reaches c₀ c) (mem : c₀ ∈ contents) : c ∈ contents := by
  induction h with
  | refl => exact mem
  | tail _ h ih =>
    obtain ⟨id, -, entries, data, paints, content⟩ := h
    exact closed _ ih id entries data _ paints content

end PdfContent.Document
