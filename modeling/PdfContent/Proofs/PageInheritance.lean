import Mathlib.Logic.Relation
import PdfContent.Document.PageTree

/-!
Entries that a page inherits. Walking up from a page passes the nodes that lack the entry and name
the node above them; the walk ends at the first node that has it, at one without a parent, or at one
where it cannot go on. Nodes may name one another in any way, so a walk that only remembers where it
has been must still be shown to end: each round takes a node out of those not visited yet.
-/

namespace PdfContent.Document

open Relation

variable {doc : Document} {key : String} {id parent : ObjectId}

/-- What a walk does at a node that it did not visit before: it ends with a result, or goes on at
the node above. -/
def look (doc : Document) (key : String) (id : ObjectId) :
    Except DocumentFault (Option PdfObject) ⊕ ObjectId :=
  match doc.node id with
  | .error fault => .inl (.error (.pageUnreachable fault))
  | .ok d =>
    match d.entry? key with
    | some value => .inl (.ok (some value))
    | none =>
      match d.entry? "Parent" with
      | none => .inl (.ok none)
      | some (.reference parent) => .inr parent
      | some o => .inl (.error (.parentNotReference (o.wrongType "Reference")))

/-- A node that lacks an entry and names the node above it by reference. -/
def Passes (doc : Document) (key : String) (id parent : ObjectId) : Prop :=
  ∃ d, doc.node id = .ok d ∧ d.entry? key = none ∧ d.entry? "Parent" = some (.reference parent)

theorem look_cases (doc : Document) (key : String) (id : ObjectId) :
    (∃ fault, doc.node id = .error fault ∧
      doc.look key id = .inl (.error (.pageUnreachable fault))) ∨
    ∃ d, doc.node id = .ok d ∧
      ((∃ value, d.entry? key = some value ∧ doc.look key id = .inl (.ok (some value))) ∨
        d.entry? key = none ∧
          (d.entry? "Parent" = none ∧ doc.look key id = .inl (.ok none) ∨
            (∃ parent, d.entry? "Parent" = some (.reference parent) ∧
              doc.look key id = .inr parent) ∨
            ∃ o, d.entry? "Parent" = some o ∧ o.reference? = none ∧ doc.look key id =
              .inl (.error (.parentNotReference (o.wrongType "Reference"))))) := by
  unfold look
  cases doc.node id with
  | error fault => simp
  | ok d =>
    cases has : d.entry? key with
    | some value => simp [has]
    | none =>
      cases up : d.entry? "Parent" with
      | none => simp [has, up]
      | some o => cases o <;> simp [has, up, PdfObject.reference?]

theorem look_eq_inr_iff : doc.look key id = .inr parent ↔ doc.Passes key id parent := by
  unfold Passes
  obtain ⟨fault, node, look⟩ | ⟨d, node, ⟨value, has, look⟩ | ⟨lacks, ⟨top, look⟩ |
    ⟨above, up, look⟩ | ⟨o, up, other, look⟩⟩⟩ := doc.look_cases key id
  · simp [node, look]
  · simp [node, has, look]
  · simp [node, lacks, top, look]
  · simp [node, lacks, up, look]
  · have unlike : o ≠ .reference parent := by
      rintro rfl
      cases other
    simp [node, lacks, up, look, unlike]

theorem look_eq_found_iff {value : PdfObject} :
    doc.look key id = .inl (.ok (some value)) ↔
      ∃ d, doc.node id = .ok d ∧ d.entry? key = some value := by
  obtain ⟨fault, node, look⟩ | ⟨d, node, ⟨other, has, look⟩ | ⟨lacks, ⟨-, look⟩ |
    ⟨above, -, look⟩ | ⟨o, -, -, look⟩⟩⟩ := doc.look_cases key id
  · simp [node, look]
  · simp [node, has, look]
  all_goals simp [node, lacks, look]

theorem look_eq_top_iff :
    doc.look key id = .inl (.ok none) ↔
      ∃ d, doc.node id = .ok d ∧ d.entry? key = none ∧ d.entry? "Parent" = none := by
  obtain ⟨fault, node, look⟩ | ⟨d, node, ⟨value, has, look⟩ | ⟨lacks, ⟨top, look⟩ |
    ⟨above, up, look⟩ | ⟨o, up, -, look⟩⟩⟩ := doc.look_cases key id
  · simp [node, look]
  · simp [node, has, look]
  · simp [node, lacks, top, look]
  all_goals simp [node, lacks, up, look]

theorem look_fails_iff :
    (∃ fault, doc.look key id = .inl (.error fault)) ↔
      (∃ fault, doc.node id = .error fault) ∨
        ∃ d o, doc.node id = .ok d ∧ d.entry? key = none ∧ d.entry? "Parent" = some o ∧
          o.reference? = none := by
  obtain ⟨fault, node, look⟩ | ⟨d, node, ⟨value, has, look⟩ | ⟨lacks, ⟨top, look⟩ |
    ⟨above, up, look⟩ | ⟨o, up, other, look⟩⟩⟩ := doc.look_cases key id
  · simp [node, look]
  · simp [node, has, look]
  · simp [node, lacks, top, look]
  · simp [node, lacks, up, look, PdfObject.reference?]
  · simp [node, lacks, up, look, other]

theorem node_of_not_mem (h : id ∉ doc.ids) : doc.node id = .error (.missing id) := by
  have unlisted : doc.objects.lookup id = none := by
    rw [List.lookup_eq_none_iff]
    intro entry mem
    rw [bne_iff_ne]
    rintro rfl
    exact h (List.mem_map_of_mem mem)
  have missing : doc.object id = .error (.missing id) := by rw [object, unlisted]
  rw [node, missing]
  rfl

structure Ascent where
  visited : List ObjectId := []
  current : ObjectId

namespace Ascent

def round (doc : Document) (key : String) (a : Ascent) :
    Except DocumentFault (Option PdfObject) ⊕ Ascent :=
  if a.current ∈ a.visited then .inl (.error (.parentCycle a.current))
  else
    match doc.look key a.current with
    | .inl result => .inl result
    | .inr parent => .inr ⟨a.current :: a.visited, parent⟩

/-- A walk ends with a result after some rounds. Nothing bounds their number beforehand. -/
inductive Ends (doc : Document) (key : String) :
    Ascent → Nat → Except DocumentFault (Option PdfObject) → Prop
  | now {a : Ascent} {result : Except DocumentFault (Option PdfObject)}
      (ends : a.round doc key = .inl result) : Ends doc key a 1 result
  | later {a b : Ascent} {rounds : Nat} {result : Except DocumentFault (Option PdfObject)}
      (goes : a.round doc key = .inr b) (rest : Ends doc key b rounds result) :
      Ends doc key a (rounds + 1) result

theorem round_eq_inl {a : Ascent} {result : Except DocumentFault (Option PdfObject)}
    (h : a.round doc key = .inl result) :
    a.current ∈ a.visited ∧ result = .error (.parentCycle a.current) ∨
      doc.look key a.current = .inl result := by
  rw [round] at h
  by_cases seen : a.current ∈ a.visited
  · rw [if_pos seen] at h
    exact .inl ⟨seen, (Sum.inl.inj h).symm⟩
  · rw [if_neg seen] at h
    cases look : doc.look key a.current with
    | inl other =>
      rw [look] at h
      exact .inr (congrArg _ (Sum.inl.inj h))
    | inr parent =>
      rw [look] at h
      cases h

theorem round_eq_inr {a b : Ascent} (h : a.round doc key = .inr b) :
    doc.Passes key a.current b.current ∧ b.visited = a.current :: a.visited := by
  rw [round] at h
  by_cases seen : a.current ∈ a.visited
  · rw [if_pos seen] at h
    cases h
  · rw [if_neg seen] at h
    cases look : doc.look key a.current with
    | inl result =>
      rw [look] at h
      cases h
    | inr parent =>
      rw [look] at h
      cases h
      exact ⟨look_eq_inr_iff.1 look, rfl⟩

end Ascent

theorem mem_without {x : ObjectId} {ids : List ObjectId} :
    x ∈ without id ids ↔ x ∈ ids ∧ x ≠ id := by
  rw [without, List.mem_filter, bne_iff_ne]

theorem inherited_of_mem {fresh : List ObjectId} (mem : id ∈ fresh) :
    doc.inherited key fresh id = match doc.look key id with
      | .inl result => result
      | .inr parent => doc.inherited key (without id fresh) parent := by
  rw [inherited, dif_pos mem, look]
  cases doc.node id with
  | error fault => rfl
  | ok d =>
    dsimp only
    cases d.entry? key with
    | some value => rfl
    | none =>
      cases d.entry? "Parent" with
      | none => rfl
      | some o => cases o <;> rfl

/-- However the nodes name one another, a walk that has visited all objects but the fresh ones ends
within one round for each of these and one more. -/
theorem ends_inherited (doc : Document) (key : String) (fresh visited : List ObjectId)
    (id : ObjectId) (split : ∀ x, x ∈ visited ↔ x ∈ doc.ids ∧ x ∉ fresh)
    (listed : ∀ x ∈ fresh, x ∈ doc.ids) :
    ∃ rounds ≤ fresh.length + 1,
      Ascent.Ends doc key ⟨visited, id⟩ rounds (doc.inherited key fresh id) := by
  induction size : fresh.length using Nat.strongRecOn generalizing fresh visited id with
  | ind _ ih =>
    subst size
    by_cases mem : id ∈ fresh
    · have unseen : id ∉ visited := fun seen => ((split id).1 seen).2 mem
      rw [inherited_of_mem mem]
      cases look : doc.look key id with
      | inl result =>
        refine ⟨1, by omega, .now ?_⟩
        rw [Ascent.round, if_neg unseen, look]
      | inr parent =>
        have shorter := without_length_lt mem
        have split' : ∀ x, x ∈ id :: visited ↔ x ∈ doc.ids ∧ x ∉ without id fresh := by
          intro x
          rw [List.mem_cons, split, mem_without]
          by_cases same : x = id
          · simp [same, listed id mem]
          · simp [same]
        obtain ⟨rounds, few, rest⟩ := ih _ shorter (without id fresh) (id :: visited) parent split'
          (fun x hx => listed x (mem_without.1 hx).1) rfl
        refine ⟨rounds + 1, by omega, .later ?_ rest⟩
        rw [Ascent.round, if_neg unseen, look]
    · refine ⟨1, by omega, .now ?_⟩
      rw [inherited, dif_neg mem]
      by_cases known : id ∈ doc.ids
      · rw [Ascent.round, if_pos ((split id).2 ⟨known, mem⟩), if_pos known]
      · have unseen : id ∉ visited := fun seen => known ((split id).1 seen).1
        rw [Ascent.round, if_neg unseen, if_neg known, look, node_of_not_mem known]

/-- A walk gets from one node to another, past all nodes before that. -/
def Climbs (doc : Document) (key : String) : ObjectId → ObjectId → Prop :=
  ReflTransGen (doc.Passes key)

def Circles (doc : Document) (key : String) (id : ObjectId) : Prop :=
  TransGen (doc.Passes key) id id

theorem passes_rightUnique (doc : Document) (key : String) :
    Relator.RightUnique (doc.Passes key) := by
  intro id a b ha hb
  exact Sum.inr.inj ((look_eq_inr_iff.2 ha).symm.trans (look_eq_inr_iff.2 hb))

theorem not_passes_of_look {result : Except DocumentFault (Option PdfObject)}
    (h : doc.look key id = .inl result) : ¬ doc.Passes key id parent := by
  intro passes
  cases h.symm.trans (look_eq_inr_iff.2 passes)

theorem Circles.look_ne {result : Except DocumentFault (Option PdfObject)}
    (h : doc.Circles key id) : doc.look key id ≠ .inl result := by
  intro look
  obtain ⟨parent, passes, -⟩ := TransGen.head'_iff.1 h
  exact not_passes_of_look look passes

theorem Circles.of_climbs {other : ObjectId} (h : doc.Circles key id)
    (climbs : doc.Climbs key id other) : doc.Circles key other := by
  induction climbs with
  | refl => exact h
  | tail _ next ih =>
    -- There is one way on, so the way round goes through the next node.
    obtain ⟨b, first, back⟩ := TransGen.head'_iff.1 ih
    cases doc.passes_rightUnique key first next
    exact TransGen.tail'_iff.2 ⟨_, back, next⟩

theorem eq_of_climbs {other : ObjectId} {result : Except DocumentFault (Option PdfObject)}
    (h : doc.look key id = .inl result) (climbs : doc.Climbs key id other) : other = id := by
  cases ReflTransGen.cases_head climbs with
  | inl same => exact same.symm
  | inr first =>
    obtain ⟨parent, passes, -⟩ := first
    exact absurd passes (not_passes_of_look h)

theorem Ascent.Ends.exists_last {a : Ascent} {rounds : Nat}
    {result : Except DocumentFault (Option PdfObject)} (h : Ascent.Ends doc key a rounds result)
    (behind : ∀ x ∈ a.visited, TransGen (doc.Passes key) x a.current) :
    ∃ last, doc.Climbs key a.current last ∧ (doc.look key last = .inl result ∨
      doc.Circles key last ∧ result = .error (.parentCycle last)) := by
  induction h with
  | @now a result ends =>
    refine ⟨a.current, .refl, ?_⟩
    cases Ascent.round_eq_inl ends with
    | inl seen => exact .inr ⟨behind _ seen.1, seen.2⟩
    | inr look => exact .inl look
  | @later a b rounds result goes _ ih =>
    obtain ⟨passes, visited⟩ := Ascent.round_eq_inr goes
    have behind' : ∀ x ∈ b.visited, TransGen (doc.Passes key) x b.current := by
      rw [visited, List.forall_mem_cons]
      exact ⟨.single passes, fun x hx => (behind x hx).tail passes⟩
    obtain ⟨last, climbs, ends⟩ := ih behind'
    exact ⟨last, .head passes climbs, ends⟩

section Page

variable {page : ObjectId} {result : Except DocumentFault (Option PdfObject)}

theorem ends_inherited_page (doc : Document) (key : String) (page : ObjectId) :
    ∃ rounds ≤ doc.objects.length + 1,
      Ascent.Ends doc key { current := page } rounds (doc.inherited key doc.ids page) := by
  have bound := doc.ends_inherited key doc.ids [] page (by simp) (fun _ mem => mem)
  rwa [ids, List.length_map] at bound

theorem exists_last (doc : Document) (key : String) (page : ObjectId) :
    ∃ last, doc.Climbs key page last ∧
      (doc.look key last = .inl (doc.inherited key doc.ids page) ∨
        doc.Circles key last ∧ doc.inherited key doc.ids page = .error (.parentCycle last)) := by
  obtain ⟨rounds, -, ends⟩ := doc.ends_inherited_page key page
  exact ends.exists_last fun x hx => by cases hx

theorem climbs_total {a b : ObjectId} (ha : doc.Climbs key page a) (hb : doc.Climbs key page b) :
    doc.Climbs key a b ∨ doc.Climbs key b a :=
  ReflTransGen.total_of_right_unique (doc.passes_rightUnique key) ha hb

/-- A page inherits what is seen at the node where a walk cannot go on. -/
theorem inherited_eq_of_climbs (climbs : doc.Climbs key page id)
    (h : doc.look key id = .inl result) : doc.inherited key doc.ids page = result := by
  obtain ⟨last, climbs', ends⟩ := doc.exists_last key page
  cases ends with
  | inl look =>
    have same : last = id := by
      cases climbs_total climbs climbs' with
      | inl on => exact eq_of_climbs h on
      | inr on => exact (eq_of_climbs look on).symm
    rw [same, h] at look
    exact (Sum.inl.inj look).symm
  | inr circles =>
    -- All nodes behind one on a circle are on circles, and none before the end is.
    exfalso
    cases climbs_total climbs climbs' with
    | inl on =>
      rw [eq_of_climbs h on] at circles
      exact circles.1.look_ne h
    | inr on => exact (circles.1.of_climbs on).look_ne h

theorem inherited_fails_of_circles (climbs : doc.Climbs key page id) (h : doc.Circles key id) :
    ∃ fault, doc.inherited key doc.ids page = .error fault := by
  obtain ⟨last, climbs', ends⟩ := doc.exists_last key page
  cases ends with
  | inl look =>
    exfalso
    cases climbs_total climbs climbs' with
    | inl on => exact (h.of_climbs on).look_ne look
    | inr on =>
      rw [eq_of_climbs look on] at h
      exact h.look_ne look
  | inr circles => exact ⟨_, circles.2⟩

theorem inherited_eq_ok_iff {found : Option PdfObject} :
    doc.inherited key doc.ids page = .ok found ↔
      ∃ id, doc.Climbs key page id ∧ doc.look key id = .inl (.ok found) := by
  constructor
  · intro h
    obtain ⟨last, climbs, ends⟩ := doc.exists_last key page
    rw [h] at ends
    cases ends with
    | inl look => exact ⟨last, climbs, look⟩
    | inr circles => cases circles.2
  · rintro ⟨id, climbs, look⟩
    exact inherited_eq_of_climbs climbs look

theorem inherited_fails_iff :
    (∃ fault, doc.inherited key doc.ids page = .error fault) ↔
      ∃ id, doc.Climbs key page id ∧
        (doc.Circles key id ∨ ∃ fault, doc.look key id = .inl (.error fault)) := by
  constructor
  · rintro ⟨fault, h⟩
    obtain ⟨last, climbs, ends⟩ := doc.exists_last key page
    rw [h] at ends
    cases ends with
    | inl look => exact ⟨last, climbs, .inr ⟨fault, look⟩⟩
    | inr circles => exact ⟨last, climbs, .inl circles.1⟩
  · rintro ⟨id, climbs, circles | ⟨fault, look⟩⟩
    · exact inherited_fails_of_circles climbs circles
    · exact ⟨fault, inherited_eq_of_climbs climbs look⟩

theorem pageResources_cases (doc : Document) (page : ObjectId) :
    (∃ fault, doc.inherited "Resources" doc.ids page = .error fault ∧
      doc.pageResources page = .error fault) ∨
    doc.inherited "Resources" doc.ids page = .ok none ∧ doc.pageResources page = .ok none ∨
    ∃ value, doc.inherited "Resources" doc.ids page = .ok (some value) ∧
      ((∃ entries, doc.resolve value = .dictionary entries ∧
          doc.pageResources page = .ok (some entries)) ∨
        (∀ entries, doc.resolve value ≠ .dictionary entries) ∧
          ∃ fault, doc.pageResources page = .error fault) := by
  unfold pageResources
  rcases doc.inherited "Resources" doc.ids page with fault | (_ | value)
  · simp [bind, Except.bind]
  · simp [bind, Except.bind, pure, Except.pure]
  · cases resolved : doc.resolve value <;>
      simp [bind, Except.bind, pure, Except.pure, throw, throwThe, MonadExceptOf.throw, resolved]

theorem pageResources_eq_some_iff {entries : Dictionary} :
    doc.pageResources page = .ok (some entries) ↔ ∃ value,
      doc.inherited "Resources" doc.ids page = .ok (some value) ∧
        doc.resolve value = .dictionary entries := by
  obtain ⟨fault, inherits, found⟩ | ⟨inherits, found⟩ | ⟨value, inherits, ⟨other, resolved, found⟩ |
    ⟨unlike, fault, found⟩⟩ := doc.pageResources_cases page
  · simp [inherits, found]
  · simp [inherits, found]
  · simp [inherits, found, resolved]
  · simp [inherits, found, unlike]

theorem pageResources_eq_none_iff :
    doc.pageResources page = .ok none ↔
      doc.inherited "Resources" doc.ids page = .ok none := by
  obtain ⟨fault, inherits, found⟩ | ⟨inherits, found⟩ | ⟨value, inherits, ⟨other, -, found⟩ |
    ⟨-, fault, found⟩⟩ := doc.pageResources_cases page
  all_goals simp [inherits, found]

theorem pageResources_fails_iff :
    (∃ fault, doc.pageResources page = .error fault) ↔
      (∃ fault, doc.inherited "Resources" doc.ids page = .error fault) ∨ ∃ value,
        doc.inherited "Resources" doc.ids page = .ok (some value) ∧
          ∀ entries, doc.resolve value ≠ .dictionary entries := by
  obtain ⟨fault, inherits, found⟩ | ⟨inherits, found⟩ | ⟨value, inherits, ⟨other, resolved, found⟩ |
    ⟨unlike, fault, found⟩⟩ := doc.pageResources_cases page
  · simp [inherits, found]
  · simp [inherits, found]
  · simp [inherits, found, resolved]
  · simp [inherits, found, unlike]

/-- The resources of a page are those of the first node, from the page up, that has any. A walk that
only remembers where it has been finds them within one round for each object and one more, whatever
the nodes name as their parents. Nothing is found where a node without a parent is met first. The
walk fails just where it comes back to a node, meets what is no dictionary, meets a parent that is
no reference, or finds resources that are no dictionary. -/
theorem pageResources_nearest (doc : Document) (page : ObjectId) :
    (∃ rounds ≤ doc.objects.length + 1, Ascent.Ends doc "Resources" { current := page } rounds
      (doc.inherited "Resources" doc.ids page)) ∧
    (∀ entries, doc.pageResources page = .ok (some entries) ↔
      ∃ id d value, doc.Climbs "Resources" page id ∧ doc.node id = .ok d ∧
        d.entry? "Resources" = some value ∧ doc.resolve value = .dictionary entries) ∧
    (doc.pageResources page = .ok none ↔
      ∃ id d, doc.Climbs "Resources" page id ∧ doc.node id = .ok d ∧
        d.entry? "Resources" = none ∧ d.entry? "Parent" = none) ∧
    ((∃ fault, doc.pageResources page = .error fault) ↔
      ∃ id, doc.Climbs "Resources" page id ∧
        (doc.Circles "Resources" id ∨
          (∃ fault, doc.node id = .error fault) ∨
          (∃ d o, doc.node id = .ok d ∧ d.entry? "Resources" = none ∧
            d.entry? "Parent" = some o ∧ o.reference? = none) ∨
          ∃ d value, doc.node id = .ok d ∧ d.entry? "Resources" = some value ∧
            ∀ entries, doc.resolve value ≠ .dictionary entries)) := by
  refine ⟨doc.ends_inherited_page "Resources" page, ?_, ?_, ?_⟩
  · intro entries
    rw [pageResources_eq_some_iff]
    simp only [inherited_eq_ok_iff, look_eq_found_iff]
    constructor
    · rintro ⟨value, ⟨id, climbs, d, node, has⟩, resolved⟩
      exact ⟨id, d, value, climbs, node, has, resolved⟩
    · rintro ⟨id, d, value, climbs, node, has, resolved⟩
      exact ⟨value, ⟨id, climbs, d, node, has⟩, resolved⟩
  · rw [pageResources_eq_none_iff, inherited_eq_ok_iff]
    simp only [look_eq_top_iff]
    constructor
    · rintro ⟨id, climbs, d, node, lacks, alone⟩
      exact ⟨id, d, climbs, node, lacks, alone⟩
    · rintro ⟨id, d, climbs, node, lacks, alone⟩
      exact ⟨id, climbs, d, node, lacks, alone⟩
  · rw [pageResources_fails_iff, inherited_fails_iff]
    simp only [inherited_eq_ok_iff, look_eq_found_iff, look_fails_iff]
    constructor
    · rintro (⟨id, climbs, circles | stuck⟩ | ⟨value, ⟨id, climbs, d, node, has⟩, other⟩)
      · exact ⟨id, climbs, .inl circles⟩
      · exact ⟨id, climbs, .inr (stuck.imp_right .inl)⟩
      · exact ⟨id, climbs, .inr (.inr (.inr ⟨d, value, node, has, other⟩))⟩
    · rintro ⟨id, climbs, circles | unreachable | misnamed | ⟨d, value, node, has, other⟩⟩
      · exact .inl ⟨id, climbs, .inl circles⟩
      · exact .inl ⟨id, climbs, .inr (.inl unreachable)⟩
      · exact .inl ⟨id, climbs, .inr (.inr misnamed)⟩
      · exact .inr ⟨value, ⟨id, climbs, d, node, has⟩, other⟩

end Page

end PdfContent.Document
