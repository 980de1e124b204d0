/-!
Memories of what was loaded. The first value stored under a key stays: storing again gives the
stored value back.
-/

namespace PdfContent

structure Cache (κ α : Type) where
  entries : List (κ × α) := []

namespace Cache

variable {κ α : Type} [BEq κ]

def get? (c : Cache κ α) (key : κ) : Option α := c.entries.lookup key

def getOrInsert (c : Cache κ α) (key : κ) (value : α) : α × Cache κ α :=
  match c.get? key with
  | some stored => (stored, c)
  | none => (value, ⟨c.entries ++ [(key, value)]⟩)

theorem getOrInsert_fst (c : Cache κ α) (key : κ) (value : α) :
    (c.getOrInsert key value).1 = (c.get? key).getD value := by
  unfold getOrInsert
  cases c.get? key <;> rfl

theorem get?_getOrInsert [LawfulBEq κ] (c : Cache κ α) (key : κ) (value : α) (other : κ) :
    (c.getOrInsert key value).2.get? other =
      if other == key then some ((c.get? key).getD value) else c.get? other := by
  unfold getOrInsert
  cases h : c.get? key with
  | some stored =>
    by_cases ho : other == key
    · rw [if_pos ho, eq_of_beq ho, h, Option.getD_some]
    · rw [if_neg ho]
  | none =>
    by_cases ho : other == key
    · rw [if_pos ho, eq_of_beq ho, Option.getD_none]
      simp only [get?, List.lookup_append, List.lookup_cons_self]
      rw [show c.entries.lookup key = none from h, Option.none_or]
    · rw [if_neg ho]
      simp [get?, List.lookup_append, List.lookup_cons, ho]

theorem entries_getOrInsert (c : Cache κ α) (key : κ) (value : α) :
    c.entries <+: (c.getOrInsert key value).2.entries := by
  unfold getOrInsert
  cases c.get? key with
  | some stored => exact List.prefix_refl _
  | none => exact List.prefix_append _ _

theorem forall_getOrInsert [LawfulBEq κ] {p : κ → α → Prop} {c : Cache κ α} {key : κ} {value : α}
    (h : ∀ k a, c.get? k = some a → p k a) (fresh : c.get? key = none) (new : p key value) :
    ∀ k a, (c.getOrInsert key value).2.get? k = some a → p k a := by
  intro k a found
  rw [get?_getOrInsert, fresh, Option.getD_none] at found
  by_cases hk : k == key
  · rw [if_pos hk, Option.some.injEq] at found
    rw [eq_of_beq hk, ← found]
    exact new
  · rw [if_neg hk] at found
    exact h k a found

def size (c : Cache κ α) : Nat := c.entries.length

end Cache

end PdfContent
