import PdfContent.Proofs.KeptFacts
import PdfContent.Proofs.Verdicts

/-!
The nesting limit. A flag under a limit stands for a chain of forms no longer than the limit that
enters none of them twice. Under a higher limit the chain is still short enough, and a lookup
follows it unless something opaque was kept of a form on it. A transparency group at the limit
counts unread, and below the limit only if it can be read.
-/

namespace PdfContent.Document

variable {doc : Document} {unread : Prop}

/-- Every transparency group met on the way from a content has bytes that decode and are tokens. -/
def GroupsReadable (doc : Document) (c₀ : Content) : Prop :=
  ∀ c id entries data, doc.Reaches c₀ c → doc.PaintsForm c id entries data →
    doc.isTransparencyGroup entries = true →
    (doc.formContent? c.resources entries data).isSome

theorem ShowsHere.read {c₀ c : Content} (h : doc.ShowsHere {} True c)
    (readable : doc.GroupsReadable c₀) (reaches : doc.Reaches c₀ c) :
    doc.ShowsHere {} False c := by
  cases h with
  | ink mem ht => exact .ink mem ht
  | image paints ht => exact .image paints ht
  | kept paints found ht => exact .kept paints found ht
  | group paints fresh hg _ =>
    exact .group paints fresh hg (.inr (readable _ _ _ _ reaches paints hg))

theorem ShowsWithin.read {depth : Nat} {opened : List (Option ObjectId)} {c : Content}
    (h : doc.ShowsWithin True depth opened c) {c₀ : Content} (readable : doc.GroupsReadable c₀)
    (reaches : doc.Reaches c₀ c) :
    doc.ShowsWithin False depth opened c := by
  induction h with
  | here h => exact .here (h.read readable reaches)
  | enter paints closed content _ ih =>
    exact .enter paints closed content (ih (reaches.enter paints content))

/-- Each form kept as transparent owes it to transparency that is shown at all. -/
def Accounts (shown : Prop) (kept : KeptForms) : Prop :=
  ∀ id facts, kept.get? id = some facts → facts.isTransparent = true → shown

/-- What is shown within the depth that is left at a content is shown within the limit from the
start, so it accounts for whatever is kept of a form, at any depth and with any forms open. -/
theorem findXObject_accounts {depth : Nat} {opened : List (Option ObjectId)} {c : Content}
    {shown : Prop} (within : doc.ShowsWithin True depth opened c → shown) {name : String}
    {m : Memory} (names : doc.Names c name) (accounts : Accounts shown m.forms) :
    Accounts shown (doc.findXObject depth opened c name m).2.forms ∧
      ((doc.findXObject depth opened c name m).1.value?.any XObject.isTransparent = true →
        shown) := by
  induction depth using Nat.strongRecOn generalizing opened c name m with
  | ind depth ih =>
    have group : ∀ {id entries data}, doc.PaintsForm c id entries data →
        (XObject.form ⟨doc.isTransparencyGroup entries, false⟩).isTransparent = true → shown := by
      intro id entries data paints h
      have hg : doc.isTransparencyGroup entries = true := by simpa using isTransparent_mk_iff.1 h
      exact within (.here (.group paints (keptForm?_empty id) hg (.inl trivial)))
    have inside : ∀ {below id entries data inner},
        doc.EntersForm opened c m id entries data inner → depth = below + 1 →
        Accounts shown
            (doc.readContent below (id :: opened) inner { m with truncated := false }).2.forms ∧
          ∀ model,
            (doc.readContent below (id :: opened) inner { m with truncated := false }).1 =
              .ok model → model.containsTransparency = true → shown := by
      intro below id entries data inner he hd
      subst hd
      have within' : doc.ShowsWithin True below (id :: opened) inner → shown :=
        fun h => within (.enter he.paints he.closed he.content h)
      exact readContent_keeps (P := Accounts shown) accounts
        (fun n hm ht => within' (.here (.ink hm ht)))
        fun name m' hn ha => ih below (Nat.lt_succ_self below) within' hn ha
    refine findXObject_enters (motive := fun found f => Accounts shown f.forms ∧
      (found.any XObject.isTransparent = true → shown)) names
      ?neither ?image ?hit ?cut ?limit ?unread ?crash ?run
    case neither =>
      intro found hf _
      exact ⟨accounts, fun h => by rw [hf] at h; cases h⟩
    case image =>
      intro id entries data image hf hs ht
      exact ⟨accounts, fun h => within (.here (.image ⟨⟨id, data, name, names, hf⟩, hs⟩ (ht ▸ h)))⟩
    case hit =>
      intro id entries data facts _ _ found
      obtain ⟨number, rfl, hk⟩ := Option.bind_eq_some_iff.1 found
      exact ⟨accounts, accounts number facts hk⟩
    case cut => exact fun _ _ _ _ paints _ _ _ => ⟨accounts, group paints⟩
    case limit => exact fun _ _ _ _ paints _ _ _ => ⟨accounts, group paints⟩
    case unread => exact fun _ _ _ _ _ _ _ => ⟨accounts, fun h => by cases h⟩
    case crash =>
      intro below id entries data inner cause after hd _ he hrun _
      obtain ⟨ha, -⟩ := inside he hd
      rw [hrun] at ha
      exact ⟨ha, fun h => by cases h⟩
    case run =>
      intro below id entries data inner model after hd _ hr
      obtain ⟨ha, hflag⟩ := inside hr.toEntersForm hd
      rw [hr.run] at ha hflag
      have found : (XObject.form ⟨doc.isTransparencyGroup entries,
          model.containsTransparency⟩).isTransparent = true → shown := by
        intro h
        rcases isTransparent_mk_iff.1 h with hg | hf
        · exact group hr.paints (isTransparent_mk_iff.2 (.inl hg))
        · exact hflag model rfl hf
      refine ⟨⟨ha, found⟩, ?_⟩
      rintro number rfl - -
      exact ⟨Cache.forall_getOrInsert ha hr.get?_eq_none found, found⟩

theorem showsWithin_of_flag {depth : Nat} {c : Content} {m after : Memory} {model : Model}
    (h : doc.readContent depth [] c m = (.ok model, after)) (fresh : m.forms = {})
    (flag : model.containsTransparency = true) : doc.ShowsWithin True depth [] c := by
  have accounts : Accounts (doc.ShowsWithin True depth [] c) m.forms := by
    intro id facts found
    rw [fresh] at found
    cases found
  exact (readContent_keeps (P := Accounts _) accounts (fun n hm ht => .here (.ink hm ht))
    fun name m' hn ha => findXObject_accounts (fun h => h) hn ha).2 model (congrArg Prod.fst h) flag

def unreadGroup : Document where
  objects := [(⟨5, 0⟩, .stream
    [(Bytes.ofUtf8 "Subtype", .name (Bytes.ofUtf8 "Form")),
      (Bytes.ofUtf8 "Group",
        .dictionary [(Bytes.ofUtf8 "S", .name (Bytes.ofUtf8 "Transparency"))])]
    (Bytes.ofUtf8 "("))]

def paintGroup : Content := ⟨some (naming "A" 5), Bytes.ofUtf8 "/A Do"⟩

/-- Three forms around the fourth one, which paints the fifth and the sixth one. The fifth paints
the fourth again, and the sixth leads to the blend mode. -/
def deepForms : Document where
  objects := [
    (⟨1, 0⟩, .stream (formEntries (naming "X" 2)) (Bytes.ofUtf8 "/X Do")),
    (⟨2, 0⟩, .stream (formEntries (naming "X" 3)) (Bytes.ofUtf8 "/X Do")),
    (⟨3, 0⟩, .stream (formEntries (naming "A" 4)) (Bytes.ofUtf8 "/A Do")),
    (⟨4, 0⟩, .stream (formEntries [(Bytes.ofUtf8 "XObject", .dictionary
        [(Bytes.ofUtf8 "B", .reference ⟨5, 0⟩), (Bytes.ofUtf8 "C", .reference ⟨6, 0⟩)])])
      (Bytes.ofUtf8 "/B Do /C Do")),
    (⟨5, 0⟩, .stream (formEntries (naming "A" 4)) (Bytes.ofUtf8 "/A Do")),
    (⟨6, 0⟩, .stream (formEntries (naming "D" 7)) (Bytes.ofUtf8 "/D Do")),
    (⟨7, 0⟩, .stream (formEntries multiplied) (Bytes.ofUtf8 "/GS gs f"))]

def paintDeep : Content where
  resources := some [(Bytes.ofUtf8 "XObject", .dictionary
    [(Bytes.ofUtf8 "X", .reference ⟨1, 0⟩), (Bytes.ofUtf8 "B", .reference ⟨5, 0⟩)])]
  data := Bytes.ofUtf8 "/X Do /B Do"

theorem mutualForms_groupsReadable : mutualForms.GroupsReadable paintSecond := by
  intro c id entries data reaches paints group
  have mem : c ∈ [paintFirst, paintSecond, insideFirst] := reaches.mem_of_closed
    (fun c hc id entries data c' paints => (mutualForms_closed c hc id entries data paints).2 c')
    (by simp)
  rcases mutualForms_paints mem paints with ⟨-, rfl, -⟩ | ⟨-, rfl, -⟩ <;> cases group

def bracketedForm : Document where
  objects := [
    (⟨5, 0⟩, .stream [] bracketedMap),
    (⟨6, 0⟩, .stream (formEntries [(Bytes.ofUtf8 "Font", .dictionary
      [(Bytes.ofUtf8 "F", .dictionary bracketedFont)])]) (Bytes.ofUtf8 "/F 1 Tf"))]

def paintBracketed : Content where
  resources := some (naming "A" 6 ++ multiplied)
  data := Bytes.ofUtf8 "/GS gs f /A Do"

theorem mutualForms_opens {opened : List (Option ObjectId)} {c : Content}
    (h : mutualForms.Opens paintSecond opened c) :
    opened = [] ∧ c = paintSecond ∨ opened = [some ⟨6, 0⟩] ∧ c = paintFirst ∨
      opened = [some ⟨5, 0⟩, some ⟨6, 0⟩] ∧ c = insideFirst := by
  obtain ⟨names₁, names₂, names₃⟩ := mutualForms_names
  induction h with
  | start => exact .inl ⟨rfl, rfl⟩
  | enter _ paints closed content ih =>
    rcases ih with ⟨rfl, rfl⟩ | ⟨rfl, rfl⟩ | ⟨rfl, rfl⟩
    · obtain ⟨rfl, rfl, rfl⟩ := paints.eq_of_names names₂ rfl
      exact .inr (.inl ⟨rfl, eq_of_formContent? content rfl rfl⟩)
    · obtain ⟨rfl, rfl, rfl⟩ := paints.eq_of_names names₁ rfl
      exact .inr (.inr ⟨rfl, eq_of_formContent? content rfl rfl⟩)
    · obtain ⟨rfl, rfl, rfl⟩ := paints.eq_of_names names₃ rfl
      exact absurd (by decide) (closed rfl)

theorem mutualForms_showsPast : mutualForms.ShowsPast paintSecond := by
  intro opened c id entries data a opens paints closed _ _ content _
  obtain ⟨names₁, names₂, names₃⟩ := mutualForms_names
  rcases mutualForms_opens opens with ⟨rfl, rfl⟩ | ⟨rfl, rfl⟩ | ⟨rfl, rfl⟩
  · obtain ⟨rfl, rfl, rfl⟩ := paints.eq_of_names names₂ rfl
    cases eq_of_formContent? content rfl rfl
    exact ⟨1, .enter paintFirst_paints (by decide) paintFirst_content (.here insideFirst_showsHere)⟩
  · obtain ⟨rfl, rfl, rfl⟩ := paints.eq_of_names names₁ rfl
    cases eq_of_formContent? content rfl rfl
    exact ⟨0, .here insideFirst_showsHere⟩
  · obtain ⟨rfl, rfl, rfl⟩ := paints.eq_of_names names₃ rfl
    exact absurd (by decide) (closed rfl)

def limited (options : Options) (limit : Nat) : Session :=
  { options := { options with formLimit := limit } }

/-- A stream that is flagged under a limit is flagged under every higher one, where the groups it
meets can be read, its forms show transparency past those that are open around them, and no font
comes down. -/
theorem verdict_limited_mono {options : Options} {limit limit' : Nat} (le : limit ≤ limit')
    {data : Bytes} {resources : Option Dictionary}
    (readable : doc.GroupsReadable ⟨resources, data⟩) (past : doc.ShowsPast ⟨resources, data⟩)
    (fonts : doc.FontsSound ⟨resources, data⟩)
    (flag : doc.verdict (.content data resources) (limited options limit) = .ok true) :
    doc.verdict (.content data resources) (limited options limit') = .ok true := by
  obtain ⟨c, hc, shows⟩ := (Call.run_sound (.inl trivial) (sound_refl doc {} True)).2 flag
  cases hc
  obtain ⟨tokens, ht⟩ : ∃ tokens, Token.ofBytes data = .ok tokens := shows.ofBytes
  obtain ⟨model, after, ha, run⟩ := analyzeContent_eq_ok fonts ht (limited options limit)
  obtain ⟨model', after', ha', run'⟩ := analyzeContent_eq_ok fonts ht (limited options limit')
  rw [verdict_content_eq ha, Except.ok.injEq] at flag
  have within : doc.ShowsWithin False limit' [] ⟨resources, data⟩ :=
    ((showsWithin_of_flag run rfl flag).read readable .refl).mono le
  have right : doc.KeepsRight after'.forms := by
    have right :=
      readContent_keepsRight past limit' (m := { session := limited options limit' }) rfl
    rw [show doc.readContent limit' [] ⟨resources, data⟩ { session := limited options limit' } = _
      from run'] at right
    exact right
  rcases readContent_flag_of_within right within run' fun _ _ found => found with flag' | ⟨lt, -⟩
  · rw [verdict_content_eq ha', flag']
  · exact absurd lt (Nat.lt_irrefl limit')

theorem verdict_limited_mono_mutualForms :
    2 ≤ 10 ∧ mutualForms.GroupsReadable paintSecond ∧ mutualForms.ShowsPast paintSecond ∧
      mutualForms.FontsSound paintSecond ∧
      mutualForms.verdict paintSecond.call (limited {} 2) = .ok true ∧
      mutualForms.verdict paintSecond.call (limited {} 10) = .ok true := by
  have fonts : mutualForms.FontsSound paintSecond := mutualForms_fontsSound (by simp)
  have flag : mutualForms.verdict paintSecond.call (limited {} 2) = .ok true :=
    eq_ok_of_toOption (by decide +kernel)
  exact ⟨by decide, mutualForms_groupsReadable, mutualForms_showsPast, fonts, flag,
    verdict_limited_mono (by decide) mutualForms_groupsReadable mutualForms_showsPast fonts flag⟩

/-- A group that cannot be read counts at the limit and is not found below it. The fifth of the deep
forms is kept as opaque under the higher limit, while the fourth one is open around it, and under
the lower limit it is not reached there. A form at the limit is not read, and below it its font
comes down. -/
theorem verdict_limited_not_mono :
    unreadGroup.verdict paintGroup.call (limited {} 0) = .ok true ∧
      unreadGroup.verdict paintGroup.call (limited {} 1) = .ok false ∧
      deepForms.verdict paintDeep.call (limited {} 4) = .ok true ∧
      deepForms.verdict paintDeep.call (limited {} 5) = .ok false ∧
      bracketedForm.verdict paintBracketed.call (limited {} 0) = .ok true ∧
      bracketedForm.verdict paintBracketed.call (limited {} 1) =
        .error (.font (.crash .endBeforeStart)) := by
  decide +kernel

end PdfContent.Document
