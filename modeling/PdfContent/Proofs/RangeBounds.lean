import Mathlib.Tactic.SplitIfs
import PdfContent.Proofs.RangeExpansion

/-!
How far ranges reach. Whatever its bounds are, an entry writes only keys between them, at most as
many as a range may cover or as it lists, and every sum that has to fit in a word does.
-/

namespace PdfContent

namespace Word

variable {a b c : UInt32}

theorem sum?_eq_some : sum? a b = some c ↔ c.toNat = a.toNat + b.toNat := by
  have small := c.toNat_lt
  simp only [sum?, UInt32.size, Option.ite_none_right_eq_some, Option.some.injEq,
    ← UInt32.toNat_inj, UInt32.toNat_add]
  omega

theorem sum?_eq_none : sum? a b = none ↔ UInt32.size ≤ a.toNat + b.toNat := by
  simp only [sum?, UInt32.size, ite_eq_right_iff, reduceCtorEq, imp_false]
  omega

theorem toNat_succ {v : UInt32} (fits : v.toNat + 1 < UInt32.size) :
    (v + 1).toNat = v.toNat + (1 : UInt32).toNat :=
  sum?_eq_some.1 (if_pos fits)

theorem toNat_toUInt32 {n : Nat} (small : n < UInt32.size) : n.toUInt32.toNat = n :=
  Nat.mod_eq_of_lt small

theorem bind_ofIndex?_eq_some {i : Nat} :
    (ofIndex? i).bind (sum? a) = some c ↔ c.toNat = a.toNat + i := by
  have small : c.toNat < UInt32.size := c.toNat_lt
  unfold ofIndex?
  split_ifs with fits
  · rw [Option.bind_some, sum?_eq_some, toNat_toUInt32 fits]
  · simp only [Option.bind_none, reduceCtorEq, false_iff]
    omega

theorem bind_ofIndex?_eq_none {i : Nat} :
    (ofIndex? i).bind (sum? a) = none ↔ UInt32.size ≤ a.toNat + i := by
  unfold ofIndex?
  split_ifs with fits
  · rw [Option.bind_some, sum?_eq_none, toNat_toUInt32 fits]
  · simp only [Option.bind_none, true_iff]
    omega

theorem reach?_eq_some {low high span : UInt32} :
    reach? low high = some span ↔
      low.toNat ≤ high.toNat ∧ high.toNat - low.toNat ≤ 65535 ∧
        span.toNat = high.toNat - low.toNat := by
  unfold reach?
  by_cases ordered : low ≤ high
  · rw [if_pos ordered]
    have width : (high - low).toNat = high.toNat - low.toNat := UInt32.toNat_sub_of_le _ _ ordered
    rw [UInt32.le_iff_toNat_le] at ordered
    simp only [Option.ite_none_right_eq_some, Option.some.injEq, UInt32.le_iff_toNat_le, width,
      ← UInt32.toNat_inj, ordered, true_and, UInt32.reduceToNat]
    exact and_congr_right fun _ => eq_comm
  · rw [if_neg ordered]
    rw [UInt32.le_iff_toNat_le] at ordered
    simp [ordered]

end Word

/-- No sum had too many bits, the keys lie between two bounds, and there are only so many. -/
structure Expansion.Bounded {ω α : Type} (low high : UInt32) (most : Nat) (x : Expansion ω α) :
    Prop where
  fits : x.outcome ≠ .error .overflow
  within : ∀ w ∈ x.writes, low ≤ w.1 ∧ w.1 ≤ high
  few : x.writes.length ≤ most

namespace Expansion

variable {ω α β σ : Type} {low high : UInt32} {most more : Nat}

theorem pure_bind (a : α) (f : α → Expansion ω β) : (pure a >>= f) = f a := rfl

theorem add_eq {a b c : UInt32} (h : c.toNat = a.toNat + b.toNat) :
    (add a b : Expansion ω UInt32) = pure c := by
  rw [add, Word.sum?_eq_some.2 h]

theorem bind_of_ok {x : Expansion ω α} {a : α} (h : x.outcome = .ok a) (f : α → Expansion ω β) :
    (x >>= f) = ⟨(f a).outcome, x.writes ++ (f a).writes⟩ := by
  change Expansion.bind x f = _
  rw [Expansion.bind, h]

theorem bind_of_error {x : Expansion ω α} {stop : Stop} (h : x.outcome = .error stop)
    (f : α → Expansion ω β) : (x >>= f) = ⟨.error stop, x.writes⟩ := by
  change Expansion.bind x f = _
  rw [Expansion.bind, h]

namespace Bounded

variable {x : Expansion ω α} {f : α → Expansion ω β}

theorem weaken (h : x.Bounded low high most) (le : most ≤ more) : x.Bounded low high more :=
  ⟨h.fits, h.within, Nat.le_trans h.few le⟩

theorem pure (a : α) : (Pure.pure a : Expansion ω α).Bounded low high 0 :=
  ⟨nofun, nofun, Nat.le_refl 0⟩

theorem read (r : Except FontFault α) : (Expansion.read r : Expansion ω α).Bounded low high 0 := by
  refine ⟨?_, nofun, Nat.le_refl 0⟩
  cases r <;> exact nofun

theorem write {key : UInt32} (value : ω) (least : low ≤ key) (greatest : key ≤ high) :
    (Expansion.write key value).Bounded low high 1 := by
  refine ⟨nofun, fun w mem => ?_, Nat.le_refl 1⟩
  rw [List.mem_singleton.1 mem]
  exact ⟨least, greatest⟩

theorem bind (h : x.Bounded low high most)
    (next : ∀ a, x.outcome = .ok a → (f a).Bounded low high more) :
    (x >>= f).Bounded low high (most + more) := by
  cases result : x.outcome with
  | error stop =>
    rw [bind_of_error result]
    exact ⟨fun same => h.fits (by cases same; exact result), h.within,
      Nat.le_trans h.few (Nat.le_add_right ..)⟩
  | ok a =>
    have rest := next a result
    rw [bind_of_ok result]
    refine ⟨rest.fits, fun w mem => ?_, ?_⟩
    · exact (List.mem_append.1 mem).elim (h.within w) (rest.within w)
    · rw [List.length_append]
      exact Nat.add_le_add h.few rest.few

theorem turns {body : UInt32 → Expansion ω Bool} {left : Nat} {value : UInt32}
    (fits : value.toNat + left < UInt32.size)
    (each : ∀ v : UInt32, value.toNat ≤ v.toNat → v.toNat ≤ value.toNat + left →
      (body v).Bounded low high 1) :
    (Expansion.turns body left value).Bounded low high (left + 1) := by
  induction left generalizing value with
  | zero =>
    exact (each value (Nat.le_refl _) (Nat.le_add_right ..)).bind fun _ _ => .pure ()
  | succ left ih =>
    have first := each value (Nat.le_refl _) (Nat.le_add_right ..)
    rw [Nat.add_comm]
    refine first.bind fun goesOn _ => ?_
    cases goesOn with
    | false => exact (pure ()).weaken (Nat.zero_le _)
    | true =>
      have next := Word.toNat_succ (v := value) (by omega)
      rw [if_pos rfl, add_eq next, pure_bind]
      rw [UInt32.toNat_one] at next
      refine ih (by omega) fun v least greatest => ?_
      exact each v (by omega) (by omega)

theorem eachUpTo {body : UInt32 → Expansion ω Bool} {first last : UInt32}
    (each : ∀ v, first ≤ v → v ≤ last → (body v).Bounded low high 1) :
    (Expansion.eachUpTo first last body).Bounded low high (last.toNat - first.toNat + 1) := by
  rw [Expansion.eachUpTo]
  split_ifs with ordered
  · have small : last.toNat < UInt32.size := last.toNat_lt
    rw [UInt32.le_iff_toNat_le] at ordered
    refine turns (by omega) fun v least greatest => each v ?_ ?_
    · exact UInt32.le_iff_toNat_le.2 least
    · exact UInt32.le_iff_toNat_le.2 (by omega)
  · exact (pure ()).weaken (Nat.zero_le _)

theorem counting {span : UInt32} {body : UInt32 → Expansion ω Bool}
    (reach : Word.reach? low high = some span)
    (each : ∀ offset key, (add low offset : Expansion ω UInt32) = Pure.pure key → low ≤ key →
      key ≤ high → (body offset).Bounded low high 1) :
    (Expansion.eachUpTo 0 span body).Bounded low high 65536 := by
  obtain ⟨ordered, near, width⟩ := Word.reach?_eq_some.1 reach
  have few : span.toNat - (0 : UInt32).toNat + 1 ≤ 65536 := by
    rw [width]
    exact Nat.succ_le_succ (Nat.le_trans (Nat.sub_le ..) near)
  refine (eachUpTo fun offset _ within => ?_).weaken few
  rw [UInt32.le_iff_toNat_le] at within
  have small : high.toNat < UInt32.size := high.toNat_lt
  have sum : (low + offset).toNat = low.toNat + offset.toNat :=
    Word.sum?_eq_some.1 (if_pos (by omega))
  refine each offset (low + offset) (add_eq sum) ?_ ?_
  · exact UInt32.le_iff_toNat_le.2 (by omega)
  · exact UInt32.le_iff_toNat_le.2 (by omega)

end Bounded

end Expansion

open Expansion

theorem ToUnicodeCMap.expandListed_bounded (low high : UInt32) (i : Nat)
    (targets : List (List Char)) :
    (expandListed low high i targets).Bounded low high targets.length := by
  induction targets generalizing i with
  | nil => exact .pure ()
  | cons target targets ih =>
    rw [expandListed]
    cases sum : (Word.ofIndex? i).bind (Word.sum? low) with
    | none => exact (Bounded.pure ()).weaken (Nat.zero_le _)
    | some code =>
      have value := Word.bind_ofIndex?_eq_some.1 sum
      dsimp only
      split_ifs with beyond
      · exact (Bounded.pure ()).weaken (Nat.zero_le _)
      · have least : low ≤ code := UInt32.le_iff_toNat_le.2 (by omega)
        have greatest : code ≤ high := UInt32.not_lt.1 beyond
        have bounded := (Bounded.read (CMap.destination target)).bind fun text _ =>
          (Bounded.write text least greatest).bind fun _ _ => ih (i + 1)
        exact bounded.weaken (by rw [List.length_cons]; omega)

theorem ToUnicodeCMap.expandIncreasing_bounded (low high : UInt32) (target : List Char) :
    (expandIncreasing low high target).Bounded low high 65536 := by
  rw [expandIncreasing]
  cases reach : Word.reach? low high with
  | none => exact (Bounded.pure ()).weaken (Nat.zero_le _)
  | some span =>
    refine ((Bounded.read (CMap.destination target)).bind fun text _ => ?_).weaken
      (Nat.le_of_eq (Nat.zero_add _))
    cases text.getLast? with
    | none => exact (Bounded.pure ()).weaken (Nat.zero_le _)
    | some last =>
      refine Bounded.counting reach fun offset key sum least greatest => ?_
      rw [writeAdvanced]
      cases (Word.sum? last.val offset).bind Word.scalar? with
      | none => exact (Bounded.pure true).weaken (Nat.zero_le _)
      | some c =>
        dsimp only
        rw [sum]
        exact (Bounded.write (text.dropLast ++ [c]) least greatest).bind fun _ _ => .pure true

theorem CidCMap.expandIncreasing_bounded (low high start : UInt32) :
    (expandIncreasing low high start).Bounded low high 65536 := by
  rw [expandIncreasing]
  cases reach : Word.reach? low high with
  | none => exact (Bounded.pure ()).weaken (Nat.zero_le _)
  | some span =>
    refine Bounded.counting reach fun offset key sum least greatest => ?_
    cases Word.sum? start offset with
    | none => exact (Bounded.pure false).weaken (Nat.zero_le _)
    | some cid =>
      dsimp only
      rw [sum]
      exact (Bounded.write cid least greatest).bind fun _ _ => .pure true

theorem Document.expandListed_bounded (first : UInt32) (i : Nat) (widths : List (Option Float)) :
    (expandListed first i widths).Bounded first 0xFFFFFFFF widths.length := by
  induction widths generalizing i with
  | nil => exact .pure ()
  | cons width widths ih =>
    rw [expandListed]
    cases sum : (Word.ofIndex? i).bind (Word.sum? first) with
    | none => exact (Bounded.pure ()).weaken (Nat.zero_le _)
    | some cid =>
      have value := Word.bind_ofIndex?_eq_some.1 sum
      have least : first ≤ cid := UInt32.le_iff_toNat_le.2 (by omega)
      have greatest : cid ≤ 0xFFFFFFFF := UInt32.le_iff_toNat_le.2 (Nat.le_of_lt_succ cid.toNat_lt)
      have rest := ih (i + 1)
      cases width with
      | none => exact rest.weaken (Nat.le_succ _)
      | some width =>
        have bounded := (Bounded.write width least greatest).bind fun _ _ => rest
        exact bounded.weaken (Nat.le_of_eq (Nat.add_comm ..))

theorem Document.expandShared_bounded (first last : UInt32) (width : Float) :
    (expandShared first last width).Bounded first last 65536 := by
  rw [expandShared]
  cases reach : Word.reach? first last with
  | none => exact (Bounded.pure ()).weaken (Nat.zero_le _)
  | some span =>
    obtain ⟨-, near, -⟩ := Word.reach?_eq_some.1 reach
    refine (Bounded.eachUpTo fun cid least greatest => ?_).weaken (Nat.succ_le_succ near)
    exact (Bounded.write width least greatest).bind fun _ _ => .pure true

end PdfContent
