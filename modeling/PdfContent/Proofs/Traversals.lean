import Mathlib.Data.List.Forall2

/-!
Lists read item by item, where reading an item may fail. The list is read exactly when each item is,
and what it gives is what the items give, in order.
-/

namespace PdfContent

variable {ε α β : Type} {f : α → Except ε β} {a : α} {as : List α} {bs : List β}

theorem mapM_eq_ok_iff :
    as.mapM f = .ok bs ↔ List.Forall₂ (fun a b => f a = .ok b) as bs := by
  induction as generalizing bs with
  | nil =>
    rw [List.forall₂_nil_left_iff]
    exact ⟨fun h => (Except.ok.inj h).symm, fun h => h ▸ rfl⟩
  | cons a as ih =>
    rw [List.mapM_cons, List.forall₂_cons_left_iff]
    simp only [← ih]
    cases read : f a with
    | error fault => exact ⟨nofun, nofun⟩
    | ok b =>
      cases others : as.mapM f with
      | error fault => exact ⟨nofun, nofun⟩
      | ok rest =>
        constructor
        · intro h
          obtain rfl := Except.ok.inj h
          exact ⟨b, rest, rfl, rfl, rfl⟩
        · rintro ⟨_, _, rfl', rest', rfl⟩
          obtain rfl := Except.ok.inj rfl'
          obtain rfl := Except.ok.inj rest'
          rfl

theorem mem_of_mapM_eq_ok (h : as.mapM f = .ok bs) {b : β} :
    b ∈ bs ↔ ∃ a ∈ as, f a = .ok b := by
  induction mapM_eq_ok_iff.1 h with
  | nil => simp
  | cons first rest ih =>
    rw [List.mem_cons, ih (mapM_eq_ok_iff.2 rest), List.exists_mem_cons_iff, first,
      Except.ok.injEq, eq_comm]

theorem exists_mapM_eq_ok_iff :
    (∃ bs, as.mapM f = .ok bs) ↔ ∀ a ∈ as, ∃ b, f a = .ok b := by
  simp only [mapM_eq_ok_iff]
  induction as with
  | nil => exact ⟨fun _ => nofun, fun _ => ⟨[], .nil⟩⟩
  | cons a as ih =>
    rw [List.forall_mem_cons, ← ih]
    constructor
    · rintro ⟨_, first | ⟨first, rest⟩⟩
      exact ⟨⟨_, first⟩, _, rest⟩
    · rintro ⟨⟨b, first⟩, bs, rest⟩
      exact ⟨b :: bs, .cons first rest⟩

theorem mapM_cons_eq_ok (h : (a :: as).mapM f = .ok bs) :
    ∃ b bs', f a = .ok b ∧ as.mapM f = .ok bs' ∧ bs = b :: bs' := by
  obtain ⟨b, bs', first, rest, rfl⟩ := List.forall₂_cons_left_iff.1 (mapM_eq_ok_iff.1 h)
  exact ⟨b, bs', first, mapM_eq_ok_iff.2 rest, rfl⟩

end PdfContent
