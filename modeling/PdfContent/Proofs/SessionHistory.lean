import PdfContent.Proofs.Completeness
import PdfContent.Proofs.SoundFonts

/-!
Sessions with a history. Analyses of pages, contents and forms of one document follow one another
in a session, and each interprets one content with what was kept before. What a run of a content
keeps, a whole history keeps.
-/

namespace PdfContent.Document

inductive Call
  | page (id : ObjectId)
  | content (data : Bytes) (resources : Option Dictionary)
  | form (id : ObjectId) (resources : Option Dictionary)

namespace Call

def run (doc : Document) (s : Session) : Call → Except Failure Model × Session
  | page id => doc.analyzePage id s
  | content data resources => doc.analyzeContent data resources s
  | form id resources => doc.analyzeForm id resources s

def content? (doc : Document) : Call → Except DocumentFault Content
  | page id => (doc.pageStream id).map fun stream => ⟨stream.2, stream.1⟩
  | content data resources => .ok ⟨resources, data⟩
  | form id resources => do
    let (entries, data) ← doc.formStream id
    let data ← doc.streamData entries data
    return ⟨(doc.dictionary? entries "Resources").or resources, data⟩

def opened : Call → List (Option ObjectId)
  | form id _ => [some id]
  | _ => []

end Call

def Content.call (c : Content) : Call := .content c.data c.resources

def after (doc : Document) (history : List Call) (s : Session) : Session :=
  history.foldl (fun s call => (call.run doc s).2) s

def verdict (doc : Document) (call : Call) (s : Session) : Except Failure Bool :=
  (call.run doc s).1.map Model.containsTransparency

def outcome (doc : Document) (opened : List (Option ObjectId)) (c : Content) (s : Session) :
    Except Failure Model × Session :=
  let result := doc.readContent (s.options.formLimit - opened.length) opened c { session := s }
  (result.1, result.2.session)

theorem Call.run_eq (doc : Document) (call : Call) (s : Session) :
    call.run doc s = match call.content? doc with
      | .error fault => (.error (.document fault), s)
      | .ok c => doc.outcome call.opened c s := by
  cases call with
  | page id =>
    simp only [run, content?, analyzePage]
    cases doc.pageStream id <;> rfl
  | content data resources => rfl
  | form id resources =>
    simp only [run, content?, analyzeForm]
    cases doc.formStream id with
    | error fault => rfl
    | ok stream =>
      simp only [bind, Except.bind]
      cases doc.streamData stream.1 stream.2 <;> rfl

/-- An analysis fails before its content is known, fails because the content is no tokens, or
reads its tokens. -/
theorem Call.run_cases {motive : Except Failure Model × Session → Prop} (doc : Document)
    (call : Call) (s : Session)
    (fault : ∀ fault, call.content? doc = .error fault → motive (.error (.document fault), s))
    (stray : ∀ c fault, call.content? doc = .ok c → Token.ofBytes c.data = .error fault →
      motive (.error (.stream fault), s))
    (read : ∀ c tokens result after, call.content? doc = .ok c →
      Token.ofBytes c.data = .ok tokens →
      doc.readContent (s.options.formLimit - call.opened.length) call.opened c { session := s } =
        (result, after) → motive (result, after.session)) :
    motive (call.run doc s) := by
  rw [call.run_eq]
  cases hc : call.content? doc with
  | error e => exact fault e hc
  | ok c =>
    cases ht : Token.ofBytes c.data with
    | error e =>
      simp only [outcome, readContent, interpret_error ht]
      exact stray c e hc ht
    | ok tokens => exact read c tokens _ _ hc ht rfl

theorem analyzeContent_eq_ok {doc : Document} {data : Bytes} {resources : Option Dictionary}
    (sound : doc.FontsSound ⟨resources, data⟩) {tokens : List Token}
    (ht : Token.ofBytes data = .ok tokens) (s : Session) :
    ∃ model after, doc.analyzeContent data resources s = (.ok model, after.session) ∧
      doc.readContent s.options.formLimit [] ⟨resources, data⟩ { session := s } =
        (.ok model, after) := by
  obtain ⟨model, after, run⟩ := exists_readContent_eq_ok sound ht s.options.formLimit []
    (m := { session := s }) rfl
  refine ⟨model, after, ?_, run⟩
  change ((doc.readContent s.options.formLimit [] ⟨resources, data⟩ { session := s }).1,
    (doc.readContent s.options.formLimit [] ⟨resources, data⟩ { session := s }).2.session) = _
  rw [run]

theorem verdict_content_eq {doc : Document} {data : Bytes} {resources : Option Dictionary}
    {s after : Session} {model : Model}
    (h : doc.analyzeContent data resources s = (.ok model, after)) :
    doc.verdict (.content data resources) s = .ok model.containsTransparency :=
  congrArg (fun result => result.1.map Model.containsTransparency) h

theorem Call.run_options (doc : Document) (call : Call) (s : Session) :
    (call.run doc s).2.options = s.options := by
  refine call.run_cases (motive := fun result => result.2.options = s.options) doc s
    (fun _ _ => rfl) (fun _ _ _ _ => rfl) ?_
  intro c tokens result after _ _ run
  have grows := doc.readContent_grows (s.options.formLimit - call.opened.length) call.opened c
    { session := s }
  rw [run] at grows
  exact grows.options

theorem readable_of_formStream {doc : Document} {id : ObjectId} {entries : Dictionary}
    {data bytes : Bytes} {tokens : List Token} (hs : doc.formStream id = .ok (entries, data))
    (hb : doc.streamData entries data = .ok bytes) (ht : Token.ofBytes bytes = .ok tokens) :
    doc.Readable id := by
  refine ⟨entries, data, ?_, ?_⟩
  · unfold formStream at hs
    split at hs
    · rename_i ho
      cases hs
      simp only [resolve, ho, Except.toOption, Option.getD_some]
    · cases hs
    · cases hs
  · rw [formContent?_of_ofBytes hb ht, Option.isSome_some]

theorem Call.readable {doc : Document} {call : Call} {c : Content} {tokens : List Token}
    (hc : call.content? doc = .ok c) (ht : Token.ofBytes c.data = .ok tokens) :
    ∀ id ∈ call.opened, ∃ number, id = some number ∧ doc.Readable number := by
  intro id hm
  cases call with
  | page _ => cases hm
  | content _ _ => cases hm
  | form number resources =>
    rw [List.mem_singleton.1 hm]
    simp only [content?, bind, Except.bind] at hc
    split at hc
    · cases hc
    · rename_i stream hs
      split at hc
      · cases hc
      · rename_i bytes hb
        cases hc
        exact ⟨number, rfl, readable_of_formStream hs hb ht⟩

theorem Call.room {doc : Document} {call : Call} {c : Content} {tokens : List Token}
    {limit : Nat} (hl : doc.objects.length < limit) (hc : call.content? doc = .ok c)
    (ht : Token.ofBytes c.data = .ok tokens) :
    doc.Room c (limit - call.opened.length) call.opened c where
  reaches := .refl
  nodup := by
    cases call with
    | page _ => exact List.nodup_nil
    | content _ _ => exact List.nodup_nil
    | form _ _ => exact List.nodup_cons.2 ⟨List.not_mem_nil, List.nodup_nil⟩
  readable := call.readable hc ht
  enough := by omega

/-- The depth limit is above the number of objects and all forms are indirect objects, so the
limit is never met. -/
structure Ample (doc : Document) (options : Options) (calls : List Call) : Prop where
  limit : doc.objects.length < options.formLimit
  indirect : ∀ call ∈ calls, ∀ c, call.content? doc = .ok c → doc.FormsIndirect c

section Sound

variable {doc : Document} {kept₀ : KeptForms} {unread : Prop}

theorem Call.run_sound {call : Call} {s : Session} (ample : unread ∨ doc.Ample s.options [call])
    (sound : doc.Sound kept₀ unread s.forms) :
    doc.Sound kept₀ unread (call.run doc s).2.forms ∧
      ((call.run doc s).1.map Model.containsTransparency = .ok true →
        ∃ c, call.content? doc = .ok c ∧ doc.Shows kept₀ unread c) := by
  refine call.run_cases (motive := fun result => doc.Sound kept₀ unread result.2.forms ∧
    (result.1.map Model.containsTransparency = .ok true →
      ∃ c, call.content? doc = .ok c ∧ doc.Shows kept₀ unread c)) doc s ?fault ?stray ?read
  case fault => exact fun _ _ => ⟨sound, fun h => by cases h⟩
  case stray => exact fun _ _ _ _ => ⟨sound, fun h => by cases h⟩
  case read =>
    intro c tokens result after hc ht h
    have room := ample.imp_right fun h =>
      And.intro (h.indirect call (List.mem_singleton_self call) c hc) (call.room h.limit hc ht)
    obtain ⟨hs, hflag⟩ := readContent_sound (m := { session := s }) room sound
    rw [h] at hs hflag
    refine ⟨hs, fun flag => ⟨c, hc, ?_⟩⟩
    obtain ⟨model, rfl, hm⟩ := map_eq_ok flag
    exact hflag model rfl hm

theorem after_sound {history : List Call} {s : Session}
    (ample : unread ∨ doc.Ample s.options history) (sound : doc.Sound kept₀ unread s.forms) :
    doc.Sound kept₀ unread (doc.after history s).forms := by
  induction history generalizing s with
  | nil => exact sound
  | cons call history ih =>
    refine ih ?_ (Call.run_sound ?_ sound).1
    · rw [call.run_options]
      exact ample.imp_right fun h => ⟨h.limit, fun k hk => h.indirect k (List.mem_cons_of_mem _ hk)⟩
    · refine ample.imp_right fun h => ⟨h.limit, fun k hk => ?_⟩
      rw [List.mem_singleton.1 hk]
      exact h.indirect call (List.mem_cons_self ..)

end Sound

theorem after_options (doc : Document) (history : List Call) (s : Session) :
    (doc.after history s).options = s.options := by
  induction history generalizing s with
  | nil => rfl
  | cons call history ih => exact (ih _).trans (call.run_options doc s)

namespace Lasting

variable {doc : Document} {P : Session → Prop}

theorem run (h : doc.Lasting P) (call : Call) {s : Session} (hs : P s) : P (call.run doc s).2 := by
  rw [call.run_eq]
  cases call.content? doc with
  | error fault => exact hs
  | ok c => exact h.interpret _ _ c.data hs

theorem after (h : doc.Lasting P) (history : List Call) {s : Session} (hs : P s) :
    P (doc.after history s) := by
  induction history generalizing s with
  | nil => exact hs
  | cons call history ih => exact ih (h.run call hs)

end Lasting

end PdfContent.Document
