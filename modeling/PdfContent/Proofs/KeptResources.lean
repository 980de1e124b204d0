import PdfContent.Proofs.WrittenSpaces

/-!
Color spaces and fonts that a session keeps. What is kept under a number was loaded from the object
of that number, whichever dictionaries and names led to it, and loading an object again gives the
same: a color space does not depend on the separations that are remembered. So a lookup cannot be
told from one in a new session.
-/

namespace PdfContent.Document

/-- Loading whose result does not depend on the remembered separations. -/
def Steady {α : Type} (load : SpaceLoading α) : Prop :=
  ∀ separations others, (load.run separations).1 = (load.run others).1

namespace Steady

variable {α β : Type}

theorem pure (value : α) : Steady (Pure.pure value) := fun _ _ => rfl

theorem throw (fault : ResourceFault) : Steady (throw fault : SpaceLoading α) := fun _ _ => rfl

theorem bind {load : SpaceLoading α} {next : α → SpaceLoading β} (h : Steady load)
    (rest : ∀ a, Steady (next a)) : Steady (load >>= next) := by
  intro s s'
  have first := h s s'
  rw [run_bind, run_bind]
  cases hs : load.run s with
  | mk result middle =>
    cases hs' : load.run s' with
    | mk result' middle' =>
      rw [hs, hs'] at first
      cases first
      cases result with
      | error fault => rfl
      | ok a => exact rest a middle middle'

theorem orFail (value : Option α) (fault : ResourceFault) : Steady (orFail value fault) := by
  cases value with
  | none => exact throw fault
  | some a => exact pure a

theorem remember (colorant : String) (space : ColorSpace) :
    Steady (Document.remember colorant space) := fun _ _ => rfl

theorem ifUsable {load : SpaceLoading α} (h : Steady load) : Steady (Document.ifUsable load) := by
  intro s s'
  change Except.ok (load.run s).1.toOption = Except.ok (load.run s').1.toOption
  rw [h s s']

theorem item (doc : Document) (items : List PdfObject) (index : Nat) (family : String) :
    Steady (doc.item items index family) := orFail _ _

theorem readColorSpace (doc : Document) (levels : Nat) (o : PdfObject) :
    Steady (doc.readColorSpace levels o) := by
  -- A separation is remembered after it was read, and nothing that is remembered is asked for.
  induction levels generalizing o with
  | zero => exact throw _
  | succ levels ih =>
    rw [Document.readColorSpace]
    split
    · exact orFail _ _
    · refine bind (orFail _ _) fun family => ?_
      -- The families in the order in which they are tried, the four without parts first.
      split
      · exact pure _
      split
      · exact pure _
      split
      · exact pure _
      split
      · exact pure _
      split
      · refine bind (item _ _ _ _) fun stream => ?_
        split
        · split
          · exact bind (ifUsable (ih _)) fun alternate => bind (orFail _ _) fun _ => pure _
          · exact bind (pure _) fun alternate => bind (orFail _ _) fun _ => pure _
        · exact throw _
      split
      · refine bind (item _ _ _ _) fun base => bind (ih base) fun _ => ?_
        exact bind (item _ _ _ _) fun _ => pure _
      split
      · refine bind (item _ _ _ _) fun name => bind (orFail _ _) fun colorant => ?_
        refine bind (item _ _ _ _) fun under => bind (ih under) fun alternate => ?_
        exact bind (remember _ _) fun _ => pure _
      split
      · refine bind (item _ _ _ _) fun array => bind (orFail _ _) fun colorants => ?_
        exact bind (item _ _ _ _) fun under => bind (ih under) fun _ => pure _
      split
      · split
        · exact bind (ih _) fun _ => pure _
        · exact pure _
      · exact throw _
    · exact throw _

end Steady

def spaceIn (doc : Document) (o : PdfObject) : Except ResourceFault ColorSpace :=
  ((doc.loadColorSpace o).run {}).1

def fontIn? (doc : Document) (o : PdfObject) : Option Font :=
  o.dictionary?.bind fun d => (doc.readFont d).toOption

theorem loadSpace_fst (doc : Document) (o : PdfObject) (m : Memory) :
    (m.loadSpace (doc.loadColorSpace o)).1 = (doc.spaceIn o).mapError .resource := by
  have steady : ((doc.loadColorSpace o).run m.session.separations).1 = doc.spaceIn o :=
    Steady.readColorSpace doc nestingLimit o m.session.separations {}
  rw [← steady]
  rfl

def FontsRead (doc : Document) (s : Session) : Prop :=
  ∀ id font, s.fonts.get? id = some font → doc.fontIn? (doc.resolve (.reference id)) = some font

section Kept

variable {doc : Document} {id : Option ObjectId} {m : Memory}

theorem SpacesRead.spaceIn {s : Session} (h : doc.SpacesRead s) {id : ObjectId} {space : ColorSpace}
    (kept : s.colorSpaces.get? id = some space) :
    doc.spaceIn (doc.resolve (.reference id)) = .ok space := by
  obtain ⟨separations, read⟩ := h id space kept
  rw [← read]
  exact Steady.readColorSpace doc nestingLimit _ {} separations

theorem SpacesRead.loadKeptSpace_fst (h : doc.SpacesRead m.session) {o : PdfObject}
    (same : ∀ number, id = some number → doc.resolve (.reference number) = o) :
    (Scope.loadKeptSpace doc id o m).1 = (doc.spaceIn o).mapError .resource := by
  have fresh := doc.loadSpace_fst o m
  refine loadKeptSpace_cases
    (motive := fun result => result.1 = (doc.spaceIn o).mapError .resource) doc id o m
    (fun _ => fresh) ?_ fun _ _ _ _ loaded => loaded.symm.trans fresh
  intro number space numbered kept
  have read := h.spaceIn kept
  rw [same number numbered] at read
  rw [read]
  rfl

theorem FontsRead.loadKeptFont_fst (h : doc.FontsRead m.session) {d : Dictionary}
    (same : ∀ number, id = some number → (doc.resolve (.reference number)).dictionary? = some d) :
    (Scope.loadKeptFont doc id d m).1 = doc.readFont d := by
  refine loadKeptFont_cases (motive := fun result => result.1 = doc.readFont d) doc id d m
    (fun _ => rfl) ?_ fun _ _ _ _ loaded => loaded.symm
  intro number font numbered kept
  have read := h number font kept
  unfold fontIn? at read
  rw [same number numbered, Option.bind_some] at read
  cases again : doc.readFont d with
  | error failure =>
    rw [again] at read
    cases read
  | ok other =>
    rw [again] at read
    cases read
    rfl

theorem FontsRead.loadKeptFont (h : doc.FontsRead m.session) {d : Dictionary}
    (same : ∀ number, id = some number → (doc.resolve (.reference number)).dictionary? = some d) :
    doc.FontsRead (Scope.loadKeptFont doc id d m).2.session := by
  refine loadKeptFont_cases (motive := fun result => doc.FontsRead result.2.session) doc id d m
    (fun _ => h) (fun _ _ _ _ => h) ?_
  intro number font numbered unkept loaded
  refine Cache.forall_getOrInsert h unkept ?_
  unfold fontIn?
  rw [same number numbered, Option.bind_some, loaded]
  rfl

end Kept

theorem fontEntry?_reference {doc : Document} {scope : Scope} {name : String} {id : ObjectId}
    {o : PdfObject} (h : scope.fontEntry? doc name = some (some id, o)) :
    doc.resolve (.reference id) = o := by
  unfold Scope.fontEntry? at h
  split at h
  · rename_i found entry
    cases h
    exact entry?_reference entry
  · simp only [Option.bind_eq_some_iff, Option.map_eq_some_iff] at h
    obtain ⟨number, -, object, leads, same⟩ := h
    cases same
    cases read : doc.object id with
    | error fault =>
      rw [read] at leads
      cases leads
    | ok target =>
      rw [read] at leads
      cases leads
      exact (Stands.reference read).resolve

theorem loadKeptSpace_fonts (doc : Document) (id : Option ObjectId) (o : PdfObject) (m : Memory) :
    (Scope.loadKeptSpace doc id o m).2.session.fonts = m.session.fonts :=
  loadKeptSpace_cases (motive := fun result => result.2.session.fonts = m.session.fonts) doc id o m
    (fun _ => rfl) (fun _ _ _ _ => rfl) (fun _ _ _ _ _ => rfl)

theorem lasting_fontsRead (doc : Document) : doc.Lasting doc.FontsRead where
  colorSpace scope name m h := by
    unfold Scope.colorSpace
    split
    · rename_i id o _
      change ∀ number font, (Scope.loadKeptSpace doc id o m).2.session.fonts.get? number = _ → _
      rw [loadKeptSpace_fonts]
      exact h
    · exact h
  font scope name m h := by
    unfold Scope.font
    split
    · exact h
    · rename_i id o entry
      split
      · exact h
      · rename_i d dictionary
        change doc.FontsRead (Memory.noting (Scope.loadKeptFont doc id d m)).2.session
        rw [noting_session]
        refine FontsRead.loadKeptFont h fun number hn => ?_
        subst hn
        rw [fontEntry?_reference entry]
        exact dictionary
  separations _ _ h := h
  forms _ _ h := h

structure Faithful (doc : Document) (s : Session) : Prop where
  spaces : doc.SpacesRead s
  fonts : doc.FontsRead s

theorem faithful_fresh (doc : Document) (options : Options) : doc.Faithful { options } where
  spaces _ _ h := by cases h
  fonts _ _ h := by cases h

theorem lasting_faithful (doc : Document) : doc.Lasting doc.Faithful where
  colorSpace scope name m h :=
    ⟨doc.lasting_spacesRead.colorSpace scope name m h.spaces,
      doc.lasting_fontsRead.colorSpace scope name m h.fonts⟩
  font scope name m h :=
    ⟨doc.lasting_spacesRead.font scope name m h.spaces,
      doc.lasting_fontsRead.font scope name m h.fonts⟩
  separations _ _ h := ⟨h.spaces, h.fonts⟩
  forms _ _ h := ⟨h.spaces, h.fonts⟩

namespace Faithful

variable {doc : Document} {m : Memory} (h : doc.Faithful m.session) (scope : Scope) (name : String)

include h

theorem colorSpace_fst :
    (scope.colorSpace doc name m).1 = match scope.entry? doc "ColorSpace" name with
      | some (_, o) => ((doc.spaceIn o).mapError .resource).map some
      | none => .ok (Scope.builtIn? name) := by
  unfold Scope.colorSpace
  cases entry : scope.entry? doc "ColorSpace" name with
  | none => rfl
  | some found =>
    obtain ⟨id, o⟩ := found
    refine congrArg (Except.map some) (h.spaces.loadKeptSpace_fst fun number hn => ?_)
    subst hn
    exact entry?_reference entry

theorem font_fst :
    (scope.font doc name m).1 = match scope.fontEntry? doc name with
      | none => .ok none
      | some (_, o) => match o.dictionary? with
        | none => .error (.resource (.fontNotDictionary name))
        | some d => (doc.readFont d).map some := by
  unfold Scope.font
  cases entry : scope.fontEntry? doc name with
  | none => rfl
  | some found =>
    obtain ⟨id, o⟩ := found
    dsimp only
    cases dictionary : o.dictionary? with
    | none => rfl
    | some d =>
      refine congrArg (Except.map some) ((noting_fst _).trans ?_)
      refine h.fonts.loadKeptFont_fst fun number hn => ?_
      subst hn
      rw [fontEntry?_reference entry]
      exact dictionary

end Faithful

section Failing

variable {doc : Document} {id : Option ObjectId} {m : Memory} {failure : Failure}

theorem loadKeptSpace_of_error {o : PdfObject}
    (h : (Scope.loadKeptSpace doc id o m).1 = .error failure) :
    (Scope.loadKeptSpace doc id o m).2.session.colorSpaces = m.session.colorSpaces := by
  revert h
  refine loadKeptSpace_cases (motive := fun result => result.1 = .error failure →
    result.2.session.colorSpaces = m.session.colorSpaces) doc id o m
    (fun _ _ => rfl) (fun _ _ _ _ _ => rfl) ?_
  intro number space _ _ _ after h
  cases h

theorem loadKeptFont_of_error {d : Dictionary}
    (h : (Scope.loadKeptFont doc id d m).1 = .error failure) :
    (Scope.loadKeptFont doc id d m).2 = m := by
  revert h
  refine loadKeptFont_cases (motive := fun result => result.1 = .error failure → result.2 = m)
    doc id d m (fun _ _ => rfl) (fun _ _ _ _ _ => rfl) ?_
  intro number font _ _ _ h
  cases h

theorem of_found_error {α : Type} {result : Except Failure α × Memory}
    (h : (Memory.found result).1 = .error failure) : result.1 = .error failure := by
  obtain ⟨_ | value, after⟩ := result
  · cases h
    rfl
  · cases h

variable {scope : Scope} {name : String}

theorem colorSpace_of_error (h : (scope.colorSpace doc name m).1 = .error failure) :
    (scope.colorSpace doc name m).2.session.colorSpaces = m.session.colorSpaces ∧
      (scope.colorSpace doc name m).2.session.fonts = m.session.fonts := by
  unfold Scope.colorSpace at h ⊢
  cases entry : scope.entry? doc "ColorSpace" name with
  | none => exact ⟨rfl, rfl⟩
  | some found =>
    obtain ⟨id, o⟩ := found
    rw [entry] at h
    exact ⟨loadKeptSpace_of_error (of_found_error h), loadKeptSpace_fonts doc id o m⟩

theorem font_of_error (h : (scope.font doc name m).1 = .error failure) :
    (scope.font doc name m).2.session = m.session := by
  unfold Scope.font at h ⊢
  cases entry : scope.fontEntry? doc name with
  | none => rfl
  | some found =>
    obtain ⟨id, o⟩ := found
    rw [entry] at h
    dsimp only at h ⊢
    cases dictionary : o.dictionary? with
    | none => rfl
    | some d =>
      rw [dictionary] at h
      have failed := (noting_fst _).symm.trans (of_found_error h)
      exact (noting_session _).trans (congrArg Memory.session (loadKeptFont_of_error failed))

end Failing

inductive KeptLookup
  | colorSpace (scope : Scope) (name : String)
  | font (scope : Scope) (name : String)

inductive KeptAnswer
  | colorSpace (found : Found ColorSpace)
  | font (found : Found Font)

def KeptAnswer.Fails : KeptAnswer → Prop
  | colorSpace found => ∃ failure, found = .error failure
  | font found => ∃ failure, found = .error failure

namespace KeptLookup

def run (doc : Document) (m : Memory) : KeptLookup → KeptAnswer × Memory
  | colorSpace scope name =>
    let result := scope.colorSpace doc name m
    (.colorSpace result.1, result.2)
  | font scope name =>
    let result := scope.font doc name m
    (.font result.1, result.2)

def runAll (doc : Document) : List KeptLookup → Memory → List KeptAnswer × Memory
  | [], m => ([], m)
  | lookup :: rest, m =>
    let first := lookup.run doc m
    let later := runAll doc rest first.2
    (first.1 :: later.1, later.2)

variable {doc : Document} {m m' : Memory}

theorem run_faithful (lookup : KeptLookup) (h : doc.Faithful m.session) :
    doc.Faithful (lookup.run doc m).2.session := by
  cases lookup with
  | colorSpace scope name => exact doc.lasting_faithful.colorSpace scope name m h
  | font scope name => exact doc.lasting_faithful.font scope name m h

theorem runAll_faithful (lookups : List KeptLookup) (h : doc.Faithful m.session) :
    doc.Faithful (runAll doc lookups m).2.session := by
  induction lookups generalizing m with
  | nil => exact h
  | cons lookup lookups ih => exact ih (run_faithful lookup h)

theorem run_fst (lookup : KeptLookup) (h : doc.Faithful m.session) (h' : doc.Faithful m'.session) :
    (lookup.run doc m).1 = (lookup.run doc m').1 := by
  cases lookup with
  | colorSpace scope name =>
    refine congrArg KeptAnswer.colorSpace ?_
    rw [h.colorSpace_fst, h'.colorSpace_fst]
  | font scope name =>
    refine congrArg KeptAnswer.font ?_
    rw [h.font_fst, h'.font_fst]

theorem runAll_fst (lookups : List KeptLookup) (h : doc.Faithful m.session)
    (h' : doc.Faithful m'.session) :
    (runAll doc lookups m).1 = lookups.map fun lookup => (lookup.run doc m').1 := by
  induction lookups generalizing m with
  | nil => rfl
  | cons lookup lookups ih =>
    have first := run_fst lookup h h'
    have rest := ih (run_faithful lookup h)
    simp only [runAll, List.map_cons, first, rest]

theorem run_of_fails {lookup : KeptLookup} (h : (lookup.run doc m).1.Fails) :
    (lookup.run doc m).2.session.colorSpaces = m.session.colorSpaces ∧
      (lookup.run doc m).2.session.fonts = m.session.fonts := by
  cases lookup with
  | colorSpace scope name =>
    obtain ⟨failure, h⟩ := h
    exact colorSpace_of_error h
  | font scope name =>
    obtain ⟨failure, h⟩ := h
    have same := font_of_error h
    exact ⟨congrArg Session.colorSpaces same, congrArg Session.fonts same⟩

end KeptLookup

/-- What a session keeps of color spaces and fonts cannot be noticed. Lookups by any names in any
resources, after any analyses, are answered as each is in a new session. Under a number is only ever
kept what the object of that number gives, so nothing where it gives nothing, and a lookup that
fails leaves what is kept as it was. -/
theorem kept_unnoticed (doc : Document) (options others : Options) (history : List Call)
    (truncated : Bool) (lookups : List KeptLookup) :
    let asked :=
      KeptLookup.runAll doc lookups { session := doc.after history { options }, truncated }
    let kept := asked.2.session
    asked.1 = lookups.map (fun lookup => (lookup.run doc { session := { options := others } }).1) ∧
      (∀ id space, kept.colorSpaces.get? id = some space →
        doc.spaceIn (doc.resolve (.reference id)) = .ok space) ∧
      (∀ id font, kept.fonts.get? id = some font →
        doc.fontIn? (doc.resolve (.reference id)) = some font) ∧
      (∀ id fault, doc.spaceIn (doc.resolve (.reference id)) = .error fault →
        kept.colorSpaces.get? id = none) ∧
      (∀ id, doc.fontIn? (doc.resolve (.reference id)) = none → kept.fonts.get? id = none) ∧
      ∀ lookup : KeptLookup, (lookup.run doc asked.2).1.Fails →
        (lookup.run doc asked.2).2.session.colorSpaces = kept.colorSpaces ∧
          (lookup.run doc asked.2).2.session.fonts = kept.fonts := by
  intro asked kept
  have before : doc.Faithful (doc.after history { options }) :=
    doc.lasting_faithful.after history (doc.faithful_fresh options)
  have faithful : doc.Faithful kept := KeptLookup.runAll_faithful lookups before
  have spaces : ∀ id space, kept.colorSpaces.get? id = some space →
      doc.spaceIn (doc.resolve (.reference id)) = .ok space :=
    fun id space found => faithful.spaces.spaceIn found
  refine ⟨KeptLookup.runAll_fst lookups before (doc.faithful_fresh others), spaces,
    faithful.fonts, ?_, ?_, fun lookup => KeptLookup.run_of_fails⟩
  · intro id fault broken
    rw [Option.eq_none_iff_forall_ne_some]
    intro space found
    rw [spaces id space found] at broken
    cases broken
  · intro id broken
    rw [Option.eq_none_iff_forall_ne_some]
    intro font found
    rw [faithful.fonts id font found] at broken
    cases broken

end PdfContent.Document
