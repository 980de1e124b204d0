import PdfContent.Proofs.FormNesting

/-!
A stream that is flagged shows transparency. The invariant of the kept forms is that whatever is
kept as transparent shows transparency for every stream that paints it; it survives every lookup,
so a flag has a chain of contents behind it whatever the session has seen before.
-/

namespace PdfContent.Document

variable {doc : Document} {kept₀ kept : KeptForms} {unread : Prop}

/-- What was kept at first still is, and each form kept as transparent shows transparency wherever
it is painted. -/
structure Sound (doc : Document) (kept₀ : KeptForms) (unread : Prop) (kept : KeptForms) :
    Prop where
  stays : Stays kept₀ kept
  faithful : ∀ id facts, kept.get? id = some facts → facts.isTransparent = true →
    ∀ c entries data, doc.PaintsForm c (some id) entries data → doc.Shows kept₀ unread c

theorem sound_refl (doc : Document) (kept₀ : KeptForms) (unread : Prop) :
    doc.Sound kept₀ unread kept₀ where
  stays _ _ h := h
  faithful _ _ found h _ _ _ paints := .here (.kept paints found h)

theorem Sound.getOrInsert (h : doc.Sound kept₀ unread kept) {number : ObjectId}
    {facts : FormXObject} (fresh : kept.get? number = none)
    (shows : facts.isTransparent = true → ∀ c entries data,
      doc.PaintsForm c (some number) entries data → doc.Shows kept₀ unread c) :
    doc.Sound kept₀ unread (kept.getOrInsert number facts).2 :=
  ⟨h.stays.getOrInsert facts fresh, Cache.forall_getOrInsert h.faithful fresh shows⟩

theorem Shows.of_form {c inner : Content} {id : Option ObjectId} {entries : Dictionary}
    {data : Bytes} (fresh : keptForm? kept₀ id = none) (paints : doc.PaintsForm c id entries data)
    (content : doc.formContent? c.resources entries data = some inner)
    (h : doc.isTransparencyGroup entries = true ∨ doc.Shows kept₀ unread inner) :
    doc.Shows kept₀ unread c := by
  rcases h with h | h
  · refine .here (.group paints fresh h (.inr ?_))
    rw [content, Option.isSome_some]
  · exact .enter ⟨fresh, entries, data, paints, content⟩ h

theorem isTransparent_mk_iff {group flag : Bool} :
    (XObject.form ⟨group, flag⟩).isTransparent = true ↔ group = true ∨ flag = true := by
  cases group <;> cases flag <;> decide

section Run

variable {c₀ : Content}

theorem findXObject_sound {depth : Nat} {opened : List (Option ObjectId)} {c : Content}
    (room : unread ∨ doc.FormsIndirect c₀ ∧ doc.Room c₀ depth opened c) {name : String}
    {m : Memory} (names : doc.Names c name) (sound : doc.Sound kept₀ unread m.forms) :
    doc.Sound kept₀ unread (doc.findXObject depth opened c name m).2.forms ∧
      ((doc.findXObject depth opened c name m).1.value?.any XObject.isTransparent = true →
        doc.Shows kept₀ unread c) := by
  -- A form is entered one level below, whatever is kept by then.
  induction depth using Nat.strongRecOn generalizing opened c name m with
  | ind depth ih =>
    have inside : ∀ {below id entries data inner},
        doc.EntersForm opened c m id entries data inner → depth = below + 1 →
        doc.Sound kept₀ unread
            (doc.readContent below (id :: opened) inner { m with truncated := false }).2.forms ∧
          ∀ model,
            (doc.readContent below (id :: opened) inner { m with truncated := false }).1 =
              .ok model → model.containsTransparency = true → doc.Shows kept₀ unread inner := by
      intro below id entries data inner he hd
      subst hd
      have hroom := room.imp_right fun h => And.intro h.1 (h.2.enter h.1 he)
      exact readContent_keeps (P := doc.Sound kept₀ unread) sound
        (fun n hm ht => .here (.ink hm ht))
        fun name m' hn hs => ih below (Nat.lt_succ_self below) hroom hn hs
    refine findXObject_enters (motive := fun found f => doc.Sound kept₀ unread f.forms ∧
      (found.any XObject.isTransparent = true → doc.Shows kept₀ unread c)) names
      ?neither ?image ?hit ?cut ?limit ?unread ?crash ?run
    case neither =>
      intro found hf _
      exact ⟨sound, fun h => by rw [hf] at h; cases h⟩
    case image =>
      intro id entries data image hf hs ht
      exact ⟨sound, fun h => .here (.image ⟨⟨id, data, name, names, hf⟩, hs⟩ (ht ▸ h))⟩
    case hit =>
      intro id entries data facts _ paints found
      refine ⟨sound, fun h => ?_⟩
      obtain ⟨number, rfl, hk⟩ := Option.bind_eq_some_iff.1 found
      exact sound.faithful number facts hk h c entries data paints
    case cut =>
      intro id entries data _ paints fresh _ mem
      refine ⟨sound, fun h => .here (.group paints (sound.stays.keptForm?_eq_none fresh) ?_ ?_)⟩
      · simpa using isTransparent_mk_iff.1 h
      · exact room.imp_right fun hr => hr.2.content_isSome paints mem c.resources
    case limit =>
      intro id entries data _ paints fresh closed hd
      refine ⟨sound, fun h => .here (.group paints (sound.stays.keptForm?_eq_none fresh) ?_ ?_)⟩
      · simpa using isTransparent_mk_iff.1 h
      · exact room.imp_right fun hr => absurd hd (hr.2.depth_ne_zero hr.1 paints closed)
    case unread =>
      intro id entries data _ _ _ _
      exact ⟨sound, fun h => by cases h⟩
    case crash =>
      intro below id entries data inner cause after hd _ he hrun _
      obtain ⟨hs, -⟩ := inside he hd
      rw [hrun] at hs
      exact ⟨hs, fun h => by cases h⟩
    case run =>
      intro below id entries data inner model after hd _ hr
      obtain ⟨hs, hflag⟩ := inside hr.toEntersForm hd
      rw [hr.run] at hs hflag
      have hflag := hflag model rfl
      have hfresh := sound.stays.keptForm?_eq_none hr.fresh
      have shows : (XObject.form ⟨doc.isTransparencyGroup entries,
          model.containsTransparency⟩).isTransparent = true → doc.Shows kept₀ unread c :=
        fun h => .of_form hfresh hr.paints hr.content ((isTransparent_mk_iff.1 h).imp_right hflag)
      refine ⟨⟨hs, shows⟩, ?_⟩
      rintro number rfl own -
      refine ⟨hs.getOrInsert hr.get?_eq_none fun h c' entries' data' paints => ?_, shows⟩
      obtain ⟨rfl, rfl⟩ := hr.paints.stream_eq paints
      refine .of_form hfresh paints ?_ ((isTransparent_mk_iff.1 h).imp_right hflag)
      rw [formContent?_eq_of_own own c'.resources c.resources, hr.content]

end Run

/-- A run of a content keeps the invariant, however it ends, and a content that is flagged shows
transparency. Bytes that cannot be read do not count where the depth limit is not met. -/
theorem readContent_sound {c₀ c : Content} {depth : Nat} {opened : List (Option ObjectId)}
    {m : Memory} (room : unread ∨ doc.FormsIndirect c₀ ∧ doc.Room c₀ depth opened c)
    (sound : doc.Sound kept₀ unread m.forms) :
    doc.Sound kept₀ unread (doc.readContent depth opened c m).2.forms ∧
      ∀ model, (doc.readContent depth opened c m).1 = .ok model →
        model.containsTransparency = true → doc.Shows kept₀ unread c :=
  readContent_keeps sound (fun _ hm ht => .here (.ink hm ht)) fun _ _ names sound =>
    findXObject_sound room names sound

end PdfContent.Document
