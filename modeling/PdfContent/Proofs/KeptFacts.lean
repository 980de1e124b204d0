import PdfContent.Proofs.Soundness

/-!
What is kept of a form under a nesting limit. A run that met the limit keeps nothing of the forms
around it, so the facts that are kept never owe anything to the limit. They can be wrong only where
a form was passed over because it was open. Where each form shows its transparency past the forms
that are open around it, whatever is kept is right.
-/

namespace PdfContent.Document

variable {doc : Document} {unread : Prop} {c₀ : Content}

/-- A chain of at most `depth` forms, none open and none entered twice, leads to a content that
shows transparency. -/
inductive ShowsWithin (doc : Document) (unread : Prop) :
    Nat → List (Option ObjectId) → Content → Prop
  | here {depth : Nat} {opened : List (Option ObjectId)} {c : Content}
      (h : doc.ShowsHere {} unread c) : ShowsWithin doc unread depth opened c
  | enter {depth : Nat} {opened : List (Option ObjectId)} {c c' : Content} {id : Option ObjectId}
      {entries : Dictionary} {data : Bytes} (paints : doc.PaintsForm c id entries data)
      (closed : id.isSome → id ∉ opened)
      (content : doc.formContent? c.resources entries data = some c')
      (rest : ShowsWithin doc unread depth (id :: opened) c') :
      ShowsWithin doc unread (depth + 1) opened c

namespace ShowsWithin

variable {depth depth' : Nat} {opened : List (Option ObjectId)} {c : Content}

theorem mono (h : doc.ShowsWithin unread depth opened c) (le : depth ≤ depth') :
    doc.ShowsWithin unread depth' opened c := by
  induction h generalizing depth' with
  | here h => exact .here h
  | enter paints closed content _ ih =>
    cases depth' with
    | zero => omega
    | succ below => exact .enter paints closed content (ih (by omega))

theorem shows (h : doc.ShowsWithin unread depth opened c) : doc.Shows {} unread c := by
  induction h with
  | here h => exact .here h
  | enter paints _ content _ ih => exact .enter (paints.enters content) ih

end ShowsWithin

/-- Forms painted one inside the other, none of them twice, lead from a content to another one. -/
inductive Opens (doc : Document) (c₀ : Content) : List (Option ObjectId) → Content → Prop
  | start : Opens doc c₀ [] c₀
  | enter {opened : List (Option ObjectId)} {c c' : Content} {id : Option ObjectId}
      {entries : Dictionary} {data : Bytes} (h : Opens doc c₀ opened c)
      (paints : doc.PaintsForm c id entries data) (closed : id.isSome → id ∉ opened)
      (content : doc.formContent? c.resources entries data = some c') :
      Opens doc c₀ (id :: opened) c'

/-- Each form with resources of its own shows its transparency past the forms open around it, if it
is no group: the content shows some through a chain that enters none of them. -/
def ShowsPast (doc : Document) (c₀ : Content) : Prop :=
  ∀ opened c id entries data a, doc.Opens c₀ opened c → doc.PaintsForm c id entries data →
    (id.isSome → id ∉ opened) → (doc.dictionary? entries "Resources").isSome →
    doc.isTransparencyGroup entries = false →
    doc.formContent? c.resources entries data = some a → doc.Shows {} False a →
    ∃ depth, doc.ShowsWithin False depth (id :: opened) a

/-- Whatever is kept of a form that shows transparency says so. -/
def KeepsRight (doc : Document) (kept : KeptForms) : Prop :=
  ∀ number facts, kept.get? number = some facts → ∀ c entries data a,
    doc.PaintsForm c (some number) entries data →
    doc.formContent? c.resources entries data = some a →
    doc.isTransparencyGroup entries = true ∨ doc.Shows {} False a → facts.isTransparent = true

section Followed

variable {depth : Nat} {opened : List (Option ObjectId)} {c : Content} {name : String}
  {id : Option ObjectId} {entries : Dictionary} {data : Bytes} {final : KeptForms}
  (names : doc.Names c name) (found : doc.Finds c name id entries data)

include names found

theorem findXObject_transparent_of_image (subtype : doc.name? entries "Subtype" = some "Image")
    (transparent : doc.isTransparentImage entries = true) (m : Memory) :
    (doc.findXObject depth opened c name m).1.value?.any XObject.isTransparent = true := by
  have noForm : ∀ {id' entries' data'}, doc.Finds c name id' entries' data' →
      ¬ doc.PaintsForm c id' entries' data' := by
    intro id' entries' data' found' paints
    cases found.symm.trans found'
    exact absurd (subtype.symm.trans paints.subtype) (by decide)
  refine findXObject_enters (motive := fun found _ => found.any XObject.isTransparent = true) names
    ?neither ?image ?hit ?cut ?limit ?unread ?crash ?run
  case neither => exact fun _ _ h => absurd subtype (h id entries data found).1
  case image =>
    intro id' entries' data' image found' _ ht
    cases found.symm.trans found'
    exact ht.trans transparent
  case hit => exact fun _ _ _ _ found' paints _ => absurd paints (noForm found')
  case cut => exact fun _ _ _ found' paints _ _ _ => absurd paints (noForm found')
  case limit => exact fun _ _ _ found' paints _ _ _ => absurd paints (noForm found')
  case unread => exact fun _ _ _ found' paints _ _ => absurd paints (noForm found')
  case crash => exact fun _ _ _ _ _ _ _ _ found' entered => absurd entered.paints (noForm found')
  case run => exact fun _ _ _ _ _ _ _ _ found' run => absurd run.paints (noForm found')

theorem findXObject_transparent_of_form {inner : Content} {needed : Nat}
    (subtype : doc.name? entries "Subtype" = some "Form")
    (content : doc.formContent? c.resources entries data = some inner)
    (kept : ∀ number facts, final.get? number = some facts → id = some number →
      facts.isTransparent = true)
    (shown : doc.isTransparencyGroup entries = true ∨ (id.isSome → id ∉ opened) ∧
      ∃ rest, needed = rest + 1 ∧ ∀ below m model after,
        doc.readContent below (id :: opened) inner m = (.ok model, after) →
        Stays after.forms final →
        model.containsTransparency = true ∨ below < rest ∧ after.truncated = true)
    {m : Memory} (stays : Stays (doc.findXObject depth opened c name m).2.forms final)
    (calm : (doc.findXObject depth opened c name m).2.crash = none) :
    (doc.findXObject depth opened c name m).1.value?.any XObject.isTransparent = true ∨
      depth < needed ∧ (doc.findXObject depth opened c name m).2.truncated = true := by
  revert stays calm
  refine findXObject_enters (motive := fun found f => Stays f.forms final → f.crash = none →
    found.any XObject.isTransparent = true ∨ depth < needed ∧ f.truncated = true) names
    ?neither ?image ?hit ?cut ?limit ?unread ?crash ?run
  case neither => exact fun _ _ h _ _ => absurd subtype (h id entries data found).2
  case image =>
    intro id' entries' data' image found' subtype' _ _ _
    cases found.symm.trans found'
    exact absurd (subtype.symm.trans subtype') (by decide)
  case hit =>
    intro id' entries' data' facts found' _ stored stays _
    cases found.symm.trans found'
    obtain ⟨number, hid, hk⟩ := Option.bind_eq_some_iff.1 stored
    exact .inl (kept number facts (stays number facts hk) hid)
  case cut =>
    intro id' entries' data' found' _ _ some mem _ _
    cases found.symm.trans found'
    rcases shown with hg | ⟨closed, -⟩
    · exact .inl (isTransparent_mk_iff.2 (.inl hg))
    · exact absurd mem (closed some)
  case limit =>
    intro id' entries' data' found' _ _ _ hd _ _
    cases found.symm.trans found'
    rcases shown with hg | ⟨-, rest, hn, -⟩
    · exact .inl (isTransparent_mk_iff.2 (.inl hg))
    · exact .inr ⟨by omega, rfl⟩
  case unread =>
    intro id' entries' data' found' _ _ none _ _
    cases found.symm.trans found'
    cases content.symm.trans none
  case crash =>
    intro below id' entries' data' inner' cause after _ _ _ _ crashed _ calm
    cases crashed.symm.trans calm
  case run =>
    intro below id' entries' data' inner' model after hd found' run
    cases found.symm.trans found'
    cases content.symm.trans run.content
    have transparent : Stays after.forms final → (XObject.form ⟨doc.isTransparencyGroup entries,
          model.containsTransparency⟩).isTransparent = true ∨
        depth < needed ∧ (m.truncated || after.truncated) = true := by
      intro stays
      rcases shown with hg | ⟨-, rest, hn, flagged⟩
      · exact .inl (isTransparent_mk_iff.2 (.inl hg))
      · rcases flagged below _ model after run.run stays with hf | ⟨lt, ht⟩
        · exact .inl (isTransparent_mk_iff.2 (.inr hf))
        · exact .inr ⟨by omega, by rw [ht, Bool.or_true]⟩
    refine ⟨fun stays _ => transparent stays, ?_⟩
    rintro number rfl - - stays -
    have keeps : Stays after.forms (after.forms.getOrInsert number
        ⟨doc.isTransparencyGroup entries, model.containsTransparency⟩).2 :=
      Stays.getOrInsert (fun _ _ h => h) _ run.get?_eq_none
    exact transparent (keeps.trans stays)

end Followed

theorem flag_of_lookup {depth needed : Nat} {opened : List (Option ObjectId)} {c : Content}
    {m after : Memory} {model : Model} {final : KeptForms}
    (h : doc.readContent depth opened c m = (.ok model, after)) (stays : Stays after.forms final)
    {name : String} (names : doc.Names c name)
    (transparent : ∀ m', Stays (doc.findXObject depth opened c name m').2.forms final →
      (doc.findXObject depth opened c name m').2.crash = none →
      (doc.findXObject depth opened c name m').1.value?.any XObject.isTransparent = true ∨
        depth < needed ∧ (doc.findXObject depth opened c name m').2.truncated = true) :
    model.containsTransparency = true ∨ depth < needed ∧ after.truncated = true := by
  obtain ⟨n, hm, m', hp, lookup⟩ := exists_lookup_of_names h names
  rcases transparent m' (lookup.stays.trans stays) lookup.calm with ht | ⟨lt, ht⟩
  · exact .inl ((flag_iff h).2 (.inr ⟨n, hm, hp ▸ ht⟩))
  · exact .inr ⟨lt, lookup.truncated ht⟩

/-- Where all that is kept by the end is right, a content is flagged that shows transparency through
a chain of forms that are not open, unless the chain is longer than the depth that is left. -/
theorem readContent_flag_of_within {final : KeptForms} (right : doc.KeepsRight final)
    {needed depth : Nat} {opened : List (Option ObjectId)} {c : Content}
    (within : doc.ShowsWithin False needed opened c) {m after : Memory} {model : Model}
    (h : doc.readContent depth opened c m = (.ok model, after)) (stays : Stays after.forms final) :
    model.containsTransparency = true ∨ depth < needed ∧ after.truncated = true := by
  induction within generalizing depth m after model with
  | here shows =>
    cases shows with
    | ink mem ht => exact .inl ((flag_iff h).2 (.inl ⟨_, mem, ht⟩))
    | image paints ht =>
      obtain ⟨id, data, name, names, found⟩ := paints.paints
      exact flag_of_lookup h stays names fun m' _ _ =>
        .inl (findXObject_transparent_of_image names found paints.subtype ht m')
    | @kept id _ _ _ _ found _ => cases (keptForm?_empty id).symm.trans found
    | group paints _ hg read =>
      obtain ⟨inner, content⟩ := Option.isSome_iff_exists.1 (read.resolve_left id)
      obtain ⟨name, names, found⟩ := paints.paints
      refine flag_of_lookup h stays names fun m' => findXObject_transparent_of_form names found
        paints.subtype content (fun number facts hk hid => ?_) (.inl hg)
      exact right number facts hk _ _ _ inner (hid ▸ paints) content (.inl hg)
  | enter paints closed content rest ih =>
    obtain ⟨name, names, found⟩ := paints.paints
    refine flag_of_lookup h stays names fun m' => findXObject_transparent_of_form names found
      paints.subtype content (fun number facts hk hid => ?_) (.inr ⟨closed, _, rfl, ?_⟩)
    · exact right number facts hk _ _ _ _ (hid ▸ paints) content (.inr rest.shows)
    · exact fun below m₁ model₁ after₁ run stays₁ => ih run stays₁

theorem findXObject_keepsRight (past : doc.ShowsPast c₀) {depth : Nat}
    {opened : List (Option ObjectId)} {c : Content} (opens : doc.Opens c₀ opened c) {name : String}
    {m : Memory} (names : doc.Names c name) (right : doc.KeepsRight m.forms) :
    doc.KeepsRight (doc.findXObject depth opened c name m).2.forms := by
  induction depth using Nat.strongRecOn generalizing opened c name m with
  | ind depth ih =>
    have inside : ∀ {below id entries data inner},
        doc.EntersForm opened c m id entries data inner → depth = below + 1 →
        doc.KeepsRight
          (doc.readContent below (id :: opened) inner { m with truncated := false }).2.forms := by
      intro below id entries data inner he hd
      have opens' := opens.enter he.paints he.closed he.content
      exact readContent_frame (P := fun f => doc.KeepsRight f.forms) right (fun _ _ hf => hf)
        fun name m' hn hm => ih below (by omega) opens' hn hm
    refine findXObject_enters (motive := fun _ f => doc.KeepsRight f.forms) names
      (fun _ _ _ => right) (fun _ _ _ _ _ _ _ => right) (fun _ _ _ _ _ _ _ => right)
      (fun _ _ _ _ _ _ _ _ => right) (fun _ _ _ _ _ _ _ _ => right) (fun _ _ _ _ _ _ _ => right)
      ?crash ?run
    case crash =>
      intro below id entries data inner cause after hd _ he hrun _
      have inside := inside he hd
      rw [hrun] at inside
      exact inside
    case run =>
      intro below id entries data inner model after hd _ hr
      have inside := inside hr.toEntersForm hd
      rw [hr.run] at inside
      refine ⟨inside, ?_⟩
      -- Facts are kept of a run that did not meet the limit, which therefore missed nothing.
      rintro number rfl own whole
      refine Cache.forall_getOrInsert inside hr.get?_eq_none ?_
      intro c' entries' data' a paints content shows
      obtain ⟨rfl, rfl⟩ := hr.paints.stream_eq paints
      rw [formContent?_eq_of_own own c'.resources c.resources, hr.content,
        Option.some.injEq] at content
      subst content
      cases hg : doc.isTransparencyGroup entries with
      | true => exact isTransparent_mk_iff.2 (.inl rfl)
      | false =>
        have shows' := shows.resolve_left (by simp [hg])
        obtain ⟨needed, within⟩ :=
          past opened c _ entries data inner opens hr.paints hr.closed own hg hr.content shows'
        rcases readContent_flag_of_within inside within hr.run fun _ _ h => h with hf | ⟨-, ht⟩
        · exact isTransparent_mk_iff.2 (.inr hf)
        · cases whole.symm.trans ht

/-- What a run keeps is right, whatever the nesting limit is. -/
theorem readContent_keepsRight (past : doc.ShowsPast c₀) (depth : Nat) {m : Memory}
    (fresh : m.forms = {}) : doc.KeepsRight (doc.readContent depth [] c₀ m).2.forms := by
  have right : doc.KeepsRight m.forms := by
    intro number facts found
    rw [fresh] at found
    cases found
  exact readContent_frame (P := fun f => doc.KeepsRight f.forms) right (fun _ _ hf => hf)
    fun name m' names right => findXObject_keepsRight past .start names right

end PdfContent.Document
