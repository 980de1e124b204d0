import PdfContent.Proofs.FormLookup

/-!
Forms inside forms. While a form is open nothing is kept of it, so the forms around a content are
different objects: where the depth limit is at least the number of objects, it is never met. Every
lookup of an external object is then one of seven cases, of which only one interprets a content.
-/

namespace PdfContent.Document

/-- The options are the same, kept forms stay, and no form that is open is newly kept. -/
structure Grows (opened : List (Option ObjectId)) (f f' : Frame) : Prop where
  options : f'.options = f.options
  forms : ∀ id, f'.forms.get? id = f.forms.get? id ∨
    (f.forms.get? id = none ∧ some id ∉ opened)

namespace Grows

variable {opened : List (Option ObjectId)} {f f' f'' : Frame}

theorem refl (opened : List (Option ObjectId)) (f : Frame) : Grows opened f f :=
  ⟨rfl, fun _ => .inl rfl⟩

theorem trans (h : Grows opened f f') (h' : Grows opened f' f'') : Grows opened f f'' := by
  refine ⟨h'.options.trans h.options, fun id => ?_⟩
  rcases h'.forms id with h' | ⟨h', ho⟩
  · rw [h']
    exact h.forms id
  · rcases h.forms id with h | h
    · exact .inr ⟨h ▸ h', ho⟩
    · exact .inr h

theorem of_cons {id : Option ObjectId} (h : Grows (id :: opened) f f') : Grows opened f f' := by
  refine ⟨h.options, fun other => ?_⟩
  rcases h.forms other with h | ⟨h, ho⟩
  · exact .inl h
  · exact .inr ⟨h, fun hm => ho (List.mem_cons_of_mem id hm)⟩

theorem getOrInsert {number : ObjectId} (facts : FormXObject) (truncated : Bool)
    (h : Grows opened f f') (fresh : f.forms.get? number = none) (closed : some number ∉ opened) :
    Grows opened f
      { f' with forms := (f'.forms.getOrInsert number facts).2, truncated := truncated } := by
  refine ⟨h.options, fun other => ?_⟩
  dsimp only
  rw [Cache.get?_getOrInsert]
  by_cases ho : other == number
  · rw [if_pos ho, eq_of_beq ho]
    exact .inr ⟨fresh, closed⟩
  · rw [if_neg ho]
    exact h.forms other

theorem get?_eq_none {number : ObjectId} (h : Grows opened f f')
    (fresh : f.forms.get? number = none) (mem : some number ∈ opened) :
    f'.forms.get? number = none := by
  rcases h.forms number with h | ⟨-, ho⟩
  · rw [h, fresh]
  · exact absurd mem ho

end Grows

def Stays (kept₀ kept : KeptForms) : Prop :=
  ∀ id facts, kept₀.get? id = some facts → kept.get? id = some facts

namespace Stays

variable {kept₀ kept : KeptForms}

theorem trans {kept₁ : KeptForms} (h : Stays kept₀ kept₁) (h' : Stays kept₁ kept) :
    Stays kept₀ kept :=
  fun id facts found => h' id facts (h id facts found)

theorem keptForm?_eq_none (h : Stays kept₀ kept) {id : Option ObjectId}
    (fresh : keptForm? kept id = none) : keptForm? kept₀ id = none := by
  cases id with
  | none => rfl
  | some number =>
    refine Option.eq_none_iff_forall_ne_some.2 fun facts hf => ?_
    cases (h number facts hf).symm.trans fresh

theorem getOrInsert (h : Stays kept₀ kept) {number : ObjectId} (facts : FormXObject)
    (fresh : kept.get? number = none) : Stays kept₀ (kept.getOrInsert number facts).2 := by
  intro id found hf
  have stored := h id found hf
  rw [Cache.get?_getOrInsert]
  by_cases hi : id == number
  · rw [eq_of_beq hi] at stored
    cases stored.symm.trans fresh
  · rw [if_neg hi, stored]

end Stays

theorem Grows.stays {opened : List (Option ObjectId)} {f f' : Frame} (h : Grows opened f f') :
    Stays f.forms f'.forms := by
  intro id facts found
  rcases h.forms id with same | ⟨none, -⟩
  · rw [same, found]
  · cases found.symm.trans none

theorem readContent_grows_of {doc : Document} {depth : Nat} {opened : List (Option ObjectId)}
    {c : Content} (find : ∀ name m,
      Grows opened m.frame (doc.findXObject depth opened c name m).2.frame) (m : Memory) :
    Grows opened m.frame (doc.readContent depth opened c m).2.frame := by
  refine readContent_frame (P := Grows opened m.frame) (.refl _ _) ?_ ?_
  · intro f cause hg
    exact ⟨hg.options, hg.forms⟩
  · intro name m' _ hg
    exact hg.trans (find name m')

theorem findXObject_grows (doc : Document) (depth : Nat) (opened : List (Option ObjectId))
    (c : Content) (name : String) (m : Memory) :
    Grows opened m.frame (doc.findXObject depth opened c name m).2.frame := by
  induction depth using Nat.strongRecOn generalizing opened c name m with
  | ind depth ih =>
    refine findXObject_cases (motive := fun _ => Grows opened m.frame) doc depth opened c
      name m (fun _ _ _ => .refl _ _) (fun _ _ _ _ _ _ _ => .refl _ _) ?_
    intro id entries data _ _
    refine readForm_cases (motive := fun _ => Grows opened m.frame) doc _ _ id entries
      data m (fun _ _ => .refl _ _) (fun _ _ _ => .refl _ _) fun fresh closed => ?_
    have inside : ∀ below content, depth = below + 1 → Grows (id :: opened) m.frame
        (doc.readContent below (id :: opened) content { m with truncated := false }).2.frame := by
      intro below content hd
      have hg := readContent_grows_of (fun name m' => ih below (by omega) (id :: opened) content
        name m') { m with truncated := false }
      exact ⟨hg.options, hg.forms⟩
    refine enterForm_cases (motive := fun _ => Grows opened m.frame) doc depth _ id
      entries data m (fun _ => ⟨rfl, fun _ => .inl rfl⟩) (fun _ => .refl _ _) ?_ ?_
    · intro below content cause after hd _ hrun _
      have hg := inside below content hd
      rw [Content.scope] at hrun
      rw [hrun] at hg
      exact ⟨hg.of_cons.options, hg.of_cons.forms⟩
    · intro below content model after hd _ hrun
      have hg := inside below content hd
      rw [Content.scope] at hrun
      rw [hrun] at hg
      refine ⟨⟨hg.of_cons.options, hg.of_cons.forms⟩, ?_⟩
      rintro number rfl - -
      exact hg.of_cons.getOrInsert _ _ fresh (closed rfl)

theorem readContent_grows (doc : Document) (depth : Nat) (opened : List (Option ObjectId))
    (c : Content) (m : Memory) :
    Grows opened m.frame (doc.readContent depth opened c m).2.frame :=
  readContent_grows_of (doc.findXObject_grows depth opened c) m

/-- A lookup looks into a form: nothing is kept of it, it is not open, and its content is tokens. -/
structure EntersForm (doc : Document) (opened : List (Option ObjectId)) (c : Content) (m : Memory)
    (id : Option ObjectId) (entries : Dictionary) (data : Bytes) (inner : Content) : Prop where
  paints : doc.PaintsForm c id entries data
  fresh : keptForm? m.forms id = none
  closed : id.isSome → id ∉ opened
  content : doc.formContent? c.resources entries data = some inner

structure RunsForm (doc : Document) (below : Nat) (opened : List (Option ObjectId))
    (c : Content) (m : Memory) (id : Option ObjectId) (entries : Dictionary) (data : Bytes)
    (inner : Content) (model : Model) (after : Memory) : Prop
    extends doc.EntersForm opened c m id entries data inner where
  run : doc.readContent below (id :: opened) inner { m with truncated := false } =
    (.ok model, after)

theorem RunsForm.get?_eq_none {doc : Document} {below : Nat} {opened : List (Option ObjectId)}
    {c inner : Content} {m after : Memory} {number : ObjectId} {entries : Dictionary}
    {data : Bytes} {model : Model}
    (h : doc.RunsForm below opened c m (some number) entries data inner model after) :
    after.forms.get? number = none := by
  have grows := doc.readContent_grows below (some number :: opened) inner
    { m with truncated := false }
  rw [h.run] at grows
  exact grows.get?_eq_none h.fresh (List.mem_cons_self ..)

/-- Looking up an external object that a content names: it is no form and no image, an image, a
form that is kept, one that is open, one at the depth limit, one that cannot be read, one that
comes down while it is read, or one that is read to its end. What is found of that one may be kept
for the form if the limit was not met. -/
theorem findXObject_enters {motive : Option XObject → Frame → Prop} {doc : Document}
    {depth : Nat} {opened : List (Option ObjectId)} {c : Content} {name : String} {m : Memory}
    (names : doc.Names c name)
    (neither : ∀ found : Option XObject, found.any XObject.isTransparent = false →
      doc.FindsNeither c name → motive found m.frame)
    (image : ∀ id entries data image, doc.Finds c name id entries data →
      doc.name? entries "Subtype" = some "Image" →
      image.isTransparent = doc.isTransparentImage entries → motive (some (.image image)) m.frame)
    (hit : ∀ id entries data facts, doc.Finds c name id entries data →
      doc.PaintsForm c id entries data → keptForm? m.forms id = some facts →
      motive (some (.form facts)) m.frame)
    (cut : ∀ id entries data, doc.Finds c name id entries data →
      doc.PaintsForm c id entries data → keptForm? m.forms id = none → id.isSome → id ∈ opened →
      motive (some (.form ⟨doc.isTransparencyGroup entries, false⟩)) m.frame)
    (limit : ∀ id entries data, doc.Finds c name id entries data →
      doc.PaintsForm c id entries data → keptForm? m.forms id = none →
      (id.isSome → id ∉ opened) → depth = 0 →
      motive (some (.form ⟨doc.isTransparencyGroup entries, false⟩))
        { m.frame with truncated := true })
    (unread : ∀ id entries data, doc.Finds c name id entries data →
      doc.PaintsForm c id entries data → keptForm? m.forms id = none →
      doc.formContent? c.resources entries data = none → motive none m.frame)
    (crash : ∀ below id entries data inner cause after, depth = below + 1 →
      doc.Finds c name id entries data → doc.EntersForm opened c m id entries data inner →
      doc.readContent below (id :: opened) inner { m with truncated := false } =
        (.error (.font (.crash cause)), after) → after.crash = some cause →
      motive none { after.frame with truncated := m.truncated })
    (run : ∀ below id entries data inner model after, depth = below + 1 →
      doc.Finds c name id entries data →
      doc.RunsForm below opened c m id entries data inner model after →
      motive (some (.form ⟨doc.isTransparencyGroup entries, model.containsTransparency⟩))
          { after.frame with truncated := m.truncated || after.truncated } ∧
        ∀ number, id = some number → (doc.dictionary? entries "Resources").isSome →
          after.truncated = false →
          motive (some (.form ⟨doc.isTransparencyGroup entries, model.containsTransparency⟩))
            { after.frame with
              forms := (after.forms.getOrInsert number
                ⟨doc.isTransparencyGroup entries, model.containsTransparency⟩).2
              truncated := m.truncated || after.truncated }) :
    motive (doc.findXObject depth opened c name m).1.value?
      (doc.findXObject depth opened c name m).2.frame := by
  refine findXObject_cases doc depth opened c name m neither image ?_
  intro id entries data hf hs
  have hp : doc.PaintsForm c id entries data := ⟨⟨name, names, hf⟩, hs⟩
  refine readForm_cases (motive := fun facts f => motive (facts.map .form) f) doc _ _ id
    entries data m (fun facts hk => hit id entries data facts hf hp hk)
    (cut id entries data hf hp) fun hk ho => ?_
  refine enterForm_cases (motive := fun facts f => motive (facts.map .form) f) doc depth _ id
    entries data m (limit id entries data hf hp hk ho) (unread id entries data hf hp hk) ?_ ?_
  · intro below inner cause after hd hc
    exact crash below id entries data inner cause after hd hf ⟨hp, hk, ho, hc⟩
  · intro below inner model after hd hc hrun
    have hr : doc.RunsForm below opened c m id entries data inner model after :=
      ⟨⟨hp, hk, ho, hc⟩, hrun⟩
    obtain ⟨passed, kept⟩ := run below id entries data inner model after hd hf hr
    refine ⟨passed, ?_⟩
    rintro number rfl own whole
    rw [Cache.getOrInsert_fst, hr.get?_eq_none]
    exact kept number rfl own whole

theorem findXObject_truncated {doc : Document} {depth : Nat} {opened : List (Option ObjectId)}
    {c : Content} {name : String} {m : Memory} (names : doc.Names c name)
    (h : m.truncated = true) : (doc.findXObject depth opened c name m).2.truncated = true := by
  refine findXObject_enters (motive := fun _ f => f.truncated = true) names (fun _ _ _ => h)
    (fun _ _ _ _ _ _ _ => h) (fun _ _ _ _ _ _ _ => h) (fun _ _ _ _ _ _ _ _ => h)
    (fun _ _ _ _ _ _ _ _ => rfl) (fun _ _ _ _ _ _ _ => h) (fun _ _ _ _ _ _ _ _ _ _ _ _ => h) ?_
  intro below id entries data inner model after _ _ _
  have outer : (m.truncated || after.truncated) = true := by rw [h, Bool.true_or]
  exact ⟨outer, fun _ _ _ _ => outer⟩

structure Lasts (f f' : Frame) : Prop where
  calm : f.crash = none
  stays : Stays f.forms f'.forms
  truncated : f.truncated = true → f'.truncated = true

theorem exists_lookup_of_names {doc : Document} {depth : Nat} {opened : List (Option ObjectId)}
    {c : Content} {m after : Memory} {model : Model}
    (h : doc.readContent depth opened c m = (.ok model, after)) {name : String}
    (names : doc.Names c name) :
    ∃ n ∈ model.nodes, ∃ m', n.painted? = (doc.findXObject depth opened c name m').1.value? ∧
      Lasts (doc.findXObject depth opened c name m').2.frame after.frame := by
  have hrun : ∀ n ∈ model.nodes, n.paintedName? = some name →
      ∃ m', n.painted? = (doc.findXObject depth opened c name m').1.value? ∧
        Lasts (doc.findXObject depth opened c name m').2.frame after.frame := by
    refine readContent_induction (P := fun nodes f => ∀ n ∈ nodes, n.paintedName? = some name →
      ∃ m', n.painted? = (doc.findXObject depth opened c name m').1.value? ∧
        Lasts (doc.findXObject depth opened c name m').2.frame f) h (by simp) ?_ ?_
    · intro nodes n f hall hname _ n' hm hn
      rcases List.mem_append.1 hm with hm | hm
      · exact hall n' hm hn
      · rw [List.mem_singleton.1 hm, hname] at hn
        cases hn
    · intro nodes n other m' hall hname names' calm hp n' hm hn
      rcases List.mem_append.1 hm with hm | hm
      · obtain ⟨m₁, hp₁, lasts⟩ := hall n' hm hn
        have stays := (doc.findXObject_grows depth opened c other m').stays
        exact ⟨m₁, hp₁, lasts.calm, lasts.stays.trans stays,
          fun ht => findXObject_truncated names' (lasts.truncated ht)⟩
      · rw [List.mem_singleton.1 hm] at hn ⊢
        cases hname.symm.trans hn
        exact ⟨m', hp, calm, fun _ _ found => found, fun ht => ht⟩
  obtain ⟨n, hm, hn⟩ := exists_mem_of_names h names
  exact ⟨n, hm, hrun n hm hn⟩

theorem formContent?_isSome {doc : Document} {entries : Dictionary} {data : Bytes}
    {outer : Option Dictionary} (h : (doc.formContent? outer entries data).isSome)
    (other : Option Dictionary) : (doc.formContent? other entries data).isSome := by
  obtain ⟨c, hc⟩ := Option.isSome_iff_exists.1 h
  obtain ⟨bytes, tokens, hb, ht, -⟩ := formContent?_eq_some hc
  rw [formContent?_of_ofBytes hb ht, Option.isSome_some]

def Readable (doc : Document) (number : ObjectId) : Prop :=
  ∃ entries data, doc.resolve (.reference number) = .stream entries data ∧
    (doc.formContent? none entries data).isSome

theorem PaintsForm.readable_iff {doc : Document} {c : Content} {number : ObjectId}
    {entries : Dictionary} {data : Bytes} (h : doc.PaintsForm c (some number) entries data)
    (outer : Option Dictionary) :
    doc.Readable number ↔ (doc.formContent? outer entries data).isSome := by
  obtain ⟨name, -, he⟩ := h.paints
  have hr := entry?_reference he
  constructor
  · rintro ⟨entries', data', hr', hc⟩
    cases hr.symm.trans hr'
    exact formContent?_isSome hc outer
  · intro hc
    exact ⟨entries, data, hr, formContent?_isSome hc none⟩

def FormsIndirect (doc : Document) (c₀ : Content) : Prop :=
  ∀ c id entries data, doc.Reaches c₀ c → doc.PaintsForm c id entries data → id.isSome

/-- Where the open forms are different objects of a list and the depth that is left suffices for the
other objects of it, one more of them can be entered. -/
theorem depth_pos_of_nodup {ids : List ObjectId} {opened : List (Option ObjectId)} {depth : Nat}
    (nodup : opened.Nodup) (listed : ∀ id ∈ opened, ∃ number, id = some number ∧ number ∈ ids)
    (enough : ids.length ≤ depth + opened.length) {number : ObjectId} (mem : number ∈ ids)
    (closed : some number ∉ opened) : 0 < depth := by
  have hsub : some number :: opened ⊆ ids.map some := by
    intro id hid
    rcases List.mem_cons.1 hid with rfl | hid
    · exact List.mem_map_of_mem mem
    · obtain ⟨other, rfl, hm⟩ := listed id hid
      exact List.mem_map_of_mem hm
  have hle := (List.nodup_cons.2 ⟨closed, nodup⟩).length_le_of_subset hsub
  simp only [List.length_cons, List.length_map] at hle
  omega

/-- The forms open around a content are different objects that were read, and the depth that is
left suffices for all objects that are not open. -/
structure Room (doc : Document) (c₀ : Content) (depth : Nat) (opened : List (Option ObjectId))
    (c : Content) : Prop where
  reaches : doc.Reaches c₀ c
  nodup : opened.Nodup
  readable : ∀ id ∈ opened, ∃ number, id = some number ∧ doc.Readable number
  enough : doc.objects.length ≤ depth + opened.length

namespace Room

variable {doc : Document} {c₀ c : Content} {depth : Nat} {opened : List (Option ObjectId)}

theorem depth_pos (h : doc.Room c₀ depth opened c) {number : ObjectId} (mem : number ∈ doc.ids)
    (closed : some number ∉ opened) : 0 < depth := by
  refine depth_pos_of_nodup h.nodup (fun id hid => ?_) ?_ mem closed
  · obtain ⟨other, rfl, entries, data, hr, -⟩ := h.readable id hid
    exact ⟨other, rfl, resolve_stream_mem_ids hr⟩
  · rw [ids, List.length_map]
    exact h.enough

theorem enter {m : Memory} {id : Option ObjectId} {entries : Dictionary} {data : Bytes}
    {inner : Content} (h : doc.Room c₀ (depth + 1) opened c) (indirect : doc.FormsIndirect c₀)
    (entered : doc.EntersForm opened c m id entries data inner) :
    doc.Room c₀ depth (id :: opened) inner := by
  have hid := indirect c id entries data h.reaches entered.paints
  refine ⟨h.reaches.enter entered.paints entered.content,
    List.nodup_cons.2 ⟨entered.closed hid, h.nodup⟩, ?_, ?_⟩
  · intro other hm
    rcases List.mem_cons.1 hm with rfl | hm
    · obtain ⟨number, rfl⟩ := Option.isSome_iff_exists.1 hid
      refine ⟨number, rfl, (entered.paints.readable_iff c.resources).2 ?_⟩
      rw [entered.content, Option.isSome_some]
    · exact h.readable other hm
  · have := h.enough
    rw [List.length_cons]
    omega

theorem depth_ne_zero (h : doc.Room c₀ depth opened c) (indirect : doc.FormsIndirect c₀)
    {id : Option ObjectId} {entries : Dictionary} {data : Bytes}
    (paints : doc.PaintsForm c id entries data) (closed : id.isSome → id ∉ opened) :
    depth ≠ 0 := by
  have hid := indirect c id entries data h.reaches paints
  obtain ⟨number, rfl⟩ := Option.isSome_iff_exists.1 hid
  exact Nat.pos_iff_ne_zero.1 (h.depth_pos paints.mem_ids (closed hid))

theorem content_isSome (h : doc.Room c₀ depth opened c) {id : Option ObjectId}
    {entries : Dictionary} {data : Bytes} (paints : doc.PaintsForm c id entries data)
    (mem : id ∈ opened) (outer : Option Dictionary) :
    (doc.formContent? outer entries data).isSome := by
  obtain ⟨number, rfl, hr⟩ := h.readable id mem
  exact (paints.readable_iff outer).1 hr

end Room

end PdfContent.Document
