import Mathlib.Logic.Function.Basic
import PdfContent.Document.StreamResources

/-!
Cached lookups that run at the same time. A lookup asks the cache, loads what it misses and stores
what it loaded, and between these three steps any others may do theirs. The first value that is
stored for an object is the one that every lookup of the object returns: what another lookup has
loaded meanwhile is dropped, and a load that fails stores nothing.
-/

namespace PdfContent

variable {ι κ ε α : Type} [DecidableEq ι] [DecidableEq κ]

/-- A cached lookup: the number of the object, if it has one, and what loading the object gives. -/
structure CachedLoad (κ ε α : Type) where
  key : Option κ
  load : Except ε α

inductive Stage (ε α : Type)
  | waiting
  | missed
  | loaded (value : α)
  | returned (result : Except ε α)

namespace CachedLoad

/-- The next step, which nothing can interrupt. An object without a number is not asked for. -/
def step (c : CachedLoad κ ε α) (cache : Cache κ α) : Stage ε α → Stage ε α × Cache κ α
  | .waiting =>
    match c.key.bind cache.get? with
    | some kept => (.returned (.ok kept), cache)
    | none => (.missed, cache)
  | .missed =>
    match c.load with
    | .ok value => (.loaded value, cache)
    | .error failure => (.returned (.error failure), cache)
  | .loaded value =>
    match c.key with
    | some key =>
      let stored := cache.getOrInsert key value
      (.returned (.ok stored.1), stored.2)
    | none => (.returned (.ok value), cache)
  | .returned result => (.returned result, cache)

def offer? (c : CachedLoad κ ε α) : Stage ε α → Option (κ × α)
  | .loaded value => c.key.map fun key => (key, value)
  | _ => none

variable (c : CachedLoad κ ε α) (cache : Cache κ α) (stage : Stage ε α)

theorem get?_step (key : κ) : (c.step cache stage).2.get? key =
    (cache.get? key).or ((c.offer? stage).toList.lookup key) := by
  cases stage with
  | waiting =>
    simp only [step, offer?, Option.toList_none, List.lookup_nil, Option.or_none]
    split <;> rfl
  | missed =>
    simp only [step, offer?, Option.toList_none, List.lookup_nil, Option.or_none]
    split <;> rfl
  | loaded value =>
    cases hk : c.key with
    | none => simp [step, offer?, hk]
    | some own =>
      simp only [step, offer?, hk, Cache.get?_getOrInsert, Option.map_some, Option.toList_some,
        List.lookup_cons, List.lookup_nil]
      by_cases same : key = own
      · subst same
        cases cache.get? key <;> simp
      · simp [beq_eq_false_iff_ne.2 same]
  | returned result => simp [step, offer?]

theorem entries_step : cache.entries <+: (c.step cache stage).2.entries := by
  cases stage with
  | loaded value =>
    simp only [step]
    split
    · exact cache.entries_getOrInsert _ value
    · exact List.prefix_refl _
  | _ =>
    simp only [step]
    repeat' split
    all_goals exact List.prefix_refl _

theorem get?_of_step_returned {key : κ} (numbered : c.key = some key) {value : α}
    (h : (c.step cache stage).1 = .returned (.ok value)) :
    stage = .returned (.ok value) ∨ (c.step cache stage).2.get? key = some value := by
  cases stage with
  | waiting =>
    right
    simp only [step, numbered, Option.bind_some] at h ⊢
    split at h
    · rename_i found
      cases h
      rw [found]
    · cases h
  | missed =>
    simp only [step] at h
    split at h <;> cases h
  | loaded own =>
    right
    simp only [step, numbered] at h ⊢
    cases h
    rw [Cache.get?_getOrInsert, Cache.getOrInsert_fst, beq_self_eq_true, if_pos rfl]
  | returned result => exact .inl h

end CachedLoad

structure Lookups (ι κ ε α : Type) where
  cache : Cache κ α
  stage : ι → Stage ε α := fun _ => .waiting

namespace Lookups

variable (loads : ι → CachedLoad κ ε α)

def advance (w : Lookups ι κ ε α) (i : ι) : Lookups ι κ ε α :=
  let next := (loads i).step w.cache (w.stage i)
  ⟨next.2, Function.update w.stage i next.1⟩

def run (w : Lookups ι κ ε α) (schedule : List ι) : Lookups ι κ ε α :=
  schedule.foldl (advance loads) w

def offers (w : Lookups ι κ ε α) : List ι → List (κ × α)
  | [] => []
  | i :: schedule => ((loads i).offer? (w.stage i)).toList ++ offers (w.advance loads i) schedule

variable {loads} {w : Lookups ι κ ε α}

theorem stage_advance_self (w : Lookups ι κ ε α) (i : ι) :
    (w.advance loads i).stage i = ((loads i).step w.cache (w.stage i)).1 :=
  Function.update_self ..

theorem stage_advance_of_ne (w : Lookups ι κ ε α) {i j : ι} (h : j ≠ i) :
    (w.advance loads i).stage j = w.stage j :=
  Function.update_of_ne h ..

theorem get?_run (w : Lookups ι κ ε α) (schedule : List ι) (key : κ) :
    (w.run loads schedule).cache.get? key =
      (w.cache.get? key).or ((w.offers loads schedule).lookup key) := by
  induction schedule generalizing w with
  | nil => simp [run, offers]
  | cons i schedule ih =>
    have first : (w.advance loads i).cache.get? key = _ :=
      (loads i).get?_step w.cache (w.stage i) key
    change ((w.advance loads i).run loads schedule).cache.get? key = _
    rw [ih, first, offers, List.lookup_append, Option.or_assoc]

theorem entries_run (w : Lookups ι κ ε α) (schedule : List ι) :
    w.cache.entries <+: (w.run loads schedule).cache.entries := by
  induction schedule generalizing w with
  | nil => exact List.prefix_refl _
  | cons i schedule ih =>
    exact ((loads i).entries_step w.cache (w.stage i)).trans (ih (w.advance loads i))

/-- Every value that a lookup has returned is the one in the cache. -/
def Settled (loads : ι → CachedLoad κ ε α) (w : Lookups ι κ ε α) : Prop :=
  ∀ i key value, (loads i).key = some key → w.stage i = .returned (.ok value) →
    w.cache.get? key = some value

theorem Settled.advance (h : w.Settled loads) (i : ι) : (w.advance loads i).Settled loads := by
  intro j key value numbered returned
  have stays : w.cache.get? key = some value → (w.advance loads i).cache.get? key = some value := by
    intro found
    have step := (loads i).get?_step w.cache (w.stage i) key
    rw [found, Option.some_or] at step
    exact step
  by_cases same : j = i
  · subst same
    rw [stage_advance_self] at returned
    rcases (loads j).get?_of_step_returned _ _ numbered returned with before | found
    · exact stays (h j key value numbered before)
    · exact found
  · rw [stage_advance_of_ne w same] at returned
    exact stays (h j key value numbered returned)

theorem Settled.run (h : w.Settled loads) (schedule : List ι) :
    (w.run loads schedule).Settled loads := by
  induction schedule generalizing w with
  | nil => exact h
  | cons i schedule ih => exact ih (h.advance i)

end Lookups

def Stage.left : Stage ε α → Nat
  | waiting => 3
  | missed => 2
  | loaded _ => 1
  | returned _ => 0

theorem Stage.eq_returned {stage : Stage ε α} (h : stage.left = 0) :
    ∃ result, stage = .returned result := by
  cases stage with
  | returned result => exact ⟨result, rfl⟩
  | _ => cases h

namespace CachedLoad

theorem left_step (c : CachedLoad κ ε α) (cache : Cache κ α) (stage : Stage ε α) :
    (c.step cache stage).1.left ≤ stage.left - 1 := by
  cases stage with
  | waiting =>
    simp only [step]
    split <;> simp [Stage.left]
  | missed =>
    simp only [step]
    split <;> simp [Stage.left]
  | loaded value =>
    simp only [step]
    split <;> simp [Stage.left]
  | returned result => simp [step, Stage.left]

theorem load_of_step_failed (c : CachedLoad κ ε α) (cache : Cache κ α) {stage : Stage ε α}
    {failure : ε} (h : (c.step cache stage).1 = .returned (.error failure)) :
    stage = .returned (.error failure) ∨ c.load = .error failure := by
  cases stage with
  | waiting =>
    simp only [step] at h
    split at h <;> cases h
  | missed =>
    right
    simp only [step] at h
    split at h
    · cases h
    · rename_i failed
      cases h
      exact failed
  | loaded value =>
    simp only [step] at h
    split at h <;> cases h
  | returned result => exact .inl h

end CachedLoad

namespace Lookups

variable {loads : ι → CachedLoad κ ε α}

theorem left_run (w : Lookups ι κ ε α) (schedule : List ι) (i : ι) :
    ((w.run loads schedule).stage i).left ≤ (w.stage i).left - schedule.count i := by
  induction schedule generalizing w with
  | nil => exact Nat.le_refl _
  | cons j schedule ih =>
    have rest := ih (w.advance loads j)
    change ((w.run loads (j :: schedule)).stage i).left ≤ _ at rest
    by_cases same : i = j
    · subst same
      have step := (loads i).left_step w.cache (w.stage i)
      rw [stage_advance_self] at rest
      rw [List.count_cons_self]
      omega
    · rw [stage_advance_of_ne w same] at rest
      rw [List.count_cons_of_ne (Ne.symm same)]
      exact rest

theorem load_of_run_failed (w : Lookups ι κ ε α) (schedule : List ι) {i : ι} {failure : ε}
    (h : (w.run loads schedule).stage i = .returned (.error failure)) :
    w.stage i = .returned (.error failure) ∨ (loads i).load = .error failure := by
  induction schedule generalizing w with
  | nil => exact .inl h
  | cons j schedule ih =>
    rcases ih (w.advance loads j) h with before | own
    · by_cases same : i = j
      · subst same
        rw [stage_advance_self] at before
        exact (loads i).load_of_step_failed w.cache before
      · rw [stage_advance_of_ne w same] at before
        exact .inl before
    · exact .inr own

end Lookups

/-- Lookups that share a cache agree, in whatever order their steps come. Under every number the
cache holds what was stored there first, every lookup of it that has returned a value has returned
that one, no entry is replaced or removed afterwards, and a lookup that starts later finds it. A
lookup that has had its three steps has returned, with a failure only where its own load fails. -/
theorem lookups_agree (loads : ι → CachedLoad κ ε α) (cache : Cache κ α) (schedule more : List ι)
    (key : κ) :
    let start : Lookups ι κ ε α := { cache }
    let now := start.run loads schedule
    let later := now.run loads more
    let first := (cache.entries ++ start.offers loads schedule).lookup key
    now.cache.get? key = first ∧
      (∀ i value, (loads i).key = some key → now.stage i = .returned (.ok value) →
        first = some value) ∧
      now.cache.entries <+: later.cache.entries ∧
      (∀ value, first = some value → later.cache.get? key = some value ∧
        ∀ i, (loads i).key = some key → later.stage i = .waiting →
          (later.advance loads i).stage i = .returned (.ok value)) ∧
      ∀ i, 3 ≤ schedule.count i → ∃ result, now.stage i = .returned result ∧
        ∀ failure, result = .error failure → (loads i).load = .error failure := by
  intro start now later first
  have held : now.cache.get? key = first := by
    rw [Lookups.get?_run]
    exact List.lookup_append.symm
  have settled : now.Settled loads :=
    Lookups.Settled.run (fun i key value _ returned => by cases returned) schedule
  refine ⟨held, ?_, now.entries_run more, ?_, ?_⟩
  · intro i value numbered returned
    rw [← held]
    exact settled i key value numbered returned
  · intro value hv
    have found : later.cache.get? key = some value := by
      rw [Lookups.get?_run, held, hv, Option.some_or]
    refine ⟨found, fun i numbered waiting => ?_⟩
    rw [Lookups.stage_advance_self, waiting]
    simp only [CachedLoad.step, numbered, Option.bind_some, found]
  · intro i three
    have left : (now.stage i).left ≤ 3 - schedule.count i := start.left_run schedule i
    have none : (now.stage i).left = 0 := by omega
    obtain ⟨result, returned⟩ := Stage.eq_returned none
    refine ⟨result, returned, ?_⟩
    rintro failure rfl
    rcases start.load_of_run_failed schedule returned with before | own
    · cases before
    · exact own

example :
    let loads : Nat → CachedLoad Nat String Nat
      | 0 => ⟨some 7, .ok 10⟩
      | 1 => ⟨some 7, .ok 20⟩
      | _ => ⟨some 7, .error "broken"⟩
    let w := Lookups.run loads { cache := {} } [0, 1, 2, 0, 1, 2, 1, 0]
    w.stage 0 = .returned (.ok 20) ∧ w.stage 1 = .returned (.ok 20) ∧
      w.stage 2 = .returned (.error "broken") ∧ w.cache.entries = [(7, 20)] :=
  ⟨rfl, rfl, rfl, rfl⟩

namespace Document

variable (doc : Document) (id : Option ObjectId) (m : Memory)

/-- A color space of a document is looked up by the three steps in a row. -/
theorem loadKeptSpace_eq_run (o : PdfObject) :
    let load := (m.loadSpace (doc.loadColorSpace o)).1
    let alone := Lookups.run (fun _ => ⟨id, load⟩) { cache := m.session.colorSpaces } [(), (), ()]
    alone.stage () = .returned (Scope.loadKeptSpace doc id o m).1 ∧
      (Scope.loadKeptSpace doc id o m).2.session.colorSpaces = alone.cache := by
  unfold Scope.loadKeptSpace
  simp only [Lookups.run, Lookups.advance, List.foldl_cons, List.foldl_nil, Function.update_self]
  cases id with
  | none =>
    simp only [CachedLoad.step, Option.bind_none, Memory.loadSpace]
    cases (doc.loadColorSpace o).run m.session.separations with
    | mk result after => cases result <;> exact ⟨rfl, rfl⟩
  | some id =>
    simp only [CachedLoad.step, Option.bind_some, Memory.loadSpace]
    cases m.session.colorSpaces.get? id with
    | some space => exact ⟨rfl, rfl⟩
    | none =>
      cases (doc.loadColorSpace o).run m.session.separations with
      | mk result after => cases result <;> exact ⟨rfl, rfl⟩

theorem loadKeptFont_eq_run (d : Dictionary) :
    let alone :=
      Lookups.run (fun _ => ⟨id, doc.readFont d⟩) { cache := m.session.fonts } [(), (), ()]
    alone.stage () = .returned (Scope.loadKeptFont doc id d m).1 ∧
      (Scope.loadKeptFont doc id d m).2.session.fonts = alone.cache := by
  unfold Scope.loadKeptFont
  simp only [Lookups.run, Lookups.advance, List.foldl_cons, List.foldl_nil, Function.update_self]
  cases id with
  | none =>
    simp only [CachedLoad.step, Option.bind_none]
    cases doc.readFont d <;> exact ⟨rfl, rfl⟩
  | some id =>
    simp only [CachedLoad.step, Option.bind_some]
    cases m.session.fonts.get? id with
    | some font => exact ⟨rfl, rfl⟩
    | none => cases doc.readFont d <;> exact ⟨rfl, rfl⟩

end Document

end PdfContent
