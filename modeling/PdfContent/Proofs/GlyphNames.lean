import Mathlib.Data.List.TakeWhile
import PdfContent.Font.GlyphName
import PdfContent.Proofs.Numerals

/-!
What glyph names stand for. A Latin name has its own character; any other name spells characters by
number, behind `uni` in groups of four digits and behind `u` with four to six. The numbers are read
as numerals, so a plus sign may take the place of the first digit: `uni+041` is read like `uni0041`.
-/

namespace PdfContent.GlyphName

open Numeral Text

/-- What a name without its suffix stands for, where `Writes` says how numbers are written. -/
inductive Means (Writes : List Char → Nat → Prop) : List Char → List Char → Prop
  | latin {name : List Char} {c : Char}
      (named : table.lookup (String.ofList name) = some c.toNat) : Means Writes name [c]
  | groups {groups : List (List Char)} {text : List Char} (ne : text ≠ [])
      (each : List.Forall₂ (fun group c => group.length = 4 ∧ Writes group c.toNat) groups text) :
      Means Writes ('u' :: 'n' :: 'i' :: groups.flatten) text
  | single {digits : List Char} {c : Char} (least : 4 ≤ digits.length)
      (most : digits.length ≤ 6) (written : Writes digits c.toNat) :
      Means Writes ('u' :: digits) [c]

def base (name : String) : List Char := name.toList.takeWhile (· != '.')

variable {name digits text cs : List Char} {n : Nat} {c : Char}

theorem scalar?_eq_some_iff : scalar? n = some c ↔ c.toNat = n := by
  unfold scalar?
  constructor
  · intro h
    split at h
    · next valid =>
      obtain rfl := Option.some.inj h
      rw [Char.ofNat, dif_pos valid]
      rfl
    · cases h
  · rintro rfl
    have valid : c.toNat.isValidChar := c.valid
    rw [if_pos valid, Char.ofNat_toNat]

theorem toNat_le_greatest32 (c : Char) : c.toNat ≤ greatest32 := by
  have low : c.toNat < 0x110000 := (Text.Utf8.toNat_scalar c).1
  exact (Nat.le_of_lt low).trans (by decide)

theorem numbered_iff :
    (∃ n, parse? 16 greatest32 digits = some n ∧ scalar? n = some c) ↔
      SpellsSigned 16 digits c.toNat := by
  simp only [scalar?_eq_some_iff, parse?_eq_some_iff (Nat.le_refl 16)]
  constructor
  · rintro ⟨_, ⟨spelled, -⟩, rfl⟩
    exact spelled
  · intro spelled
    exact ⟨_, ⟨spelled, toNat_le_greatest32 c⟩, rfl⟩

theorem ofGroups?_cons {group : List Char} (four : group.length = 4)
    (written : SpellsSigned 16 group c.toNat) :
    ofGroups? (group ++ digits) = (ofGroups? digits).map (c :: ·) := by
  obtain ⟨n, read, scalar⟩ := numbered_iff.2 written
  match group, four with
  | [a, b, d, e], _ =>
    simp only [List.cons_append, List.nil_append, ofGroups?, read, scalar, Option.bind_eq_bind,
      Option.bind_some]
    cases ofGroups? digits <;> rfl

theorem ofGroups?_eq_some_iff :
    ofGroups? digits = some text ↔ ∃ groups, groups.flatten = digits ∧
      List.Forall₂ (fun group c => group.length = 4 ∧ SpellsSigned 16 group c.toNat)
        groups text := by
  constructor
  · intro h
    fun_induction ofGroups? digits generalizing text with
    | case1 =>
      obtain rfl := Option.some.inj h
      exact ⟨[], rfl, .nil⟩
    | case2 a b d e rest ih =>
      simp only [Option.bind_eq_bind, Option.bind_eq_some_iff] at h
      obtain ⟨n, read, c, scalar, tail, following, whole⟩ := h
      obtain rfl := Option.some.inj whole
      obtain ⟨groups, rfl, each⟩ := ih following
      have first : SpellsSigned 16 [a, b, d, e] c.toNat := numbered_iff.1 ⟨n, read, scalar⟩
      exact ⟨[a, b, d, e] :: groups, rfl, .cons ⟨rfl, first⟩ each⟩
    | case3 => cases h
  · rintro ⟨groups, rfl, each⟩
    induction each with
    | nil => rfl
    | cons first _ ih => rw [List.flatten_cons, ofGroups?_cons first.1 first.2, ih]; rfl

theorem size_of_numerals (h : ∀ c ∈ cs, c = '+' ∨ c ∈ digitChars) :
    Utf8.size cs = cs.length := by
  have all : ('+' :: digitChars).all fun c => c.utf8Size = 1 := by decide
  refine Utf8.size_eq_length fun c hc => ?_
  exact of_decide_eq_true (List.all_eq_true.1 all c (List.mem_cons.2 (h c hc)))

theorem after?_eq_some_iff {start rest : List Char} :
    after? start cs = some rest ↔ cs = start ++ rest := by
  unfold after?
  constructor
  · intro h
    split at h
    · next isStart =>
      obtain rfl := Option.some.inj h
      obtain ⟨rest, rfl⟩ := List.isPrefixOf_iff_prefix.1 isStart
      rw [List.drop_left]
    · cases h
  · rintro rfl
    have isStart : start.isPrefixOf (start ++ rest) :=
      List.isPrefixOf_iff_prefix.2 (List.prefix_append start rest)
    rw [if_pos isStart, List.drop_left]

theorem mem_of_lookup {s : String} (found : table.lookup s = some n) : (s, n) ∈ table := by
  obtain ⟨front, rest, split, -⟩ := List.lookup_eq_some_iff.1 found
  rw [split]
  exact List.mem_append_right _ (List.mem_cons_self ..)

theorem toNat_ofNat_of_mem {e : String × Nat} (h : e ∈ table) : (Char.ofNat e.2).toNat = e.2 := by
  have all : ∀ e ∈ table, (Char.ofNat e.2).toNat = e.2 := by decide +kernel
  exact all e h

theorem latin_spec (found : table.lookup (String.ofList name) = some n) :
    ('+' ∉ name ∧ '.' ∉ name) ∧ (name.head? = some 'u' → ¬ ['n', 'i'] <+: name.tail ∧
      (name.tail = [] ∨ name.tail.all (· ∈ '+' :: digitChars) = false)) := by
  have all : ∀ name ∈ table.map (·.1.toList), ('+' ∉ name ∧ '.' ∉ name) ∧
      (name.head? = some 'u' → ¬ ['n', 'i'] <+: name.tail ∧
        (name.tail = [] ∨ name.tail.all (· ∈ '+' :: digitChars) = false)) := by
    decide +kernel
  have member := List.mem_map_of_mem (f := (·.1.toList)) (mem_of_lookup found)
  rw [String.toList_ofList] at member
  exact all name member

theorem lookup_numbered (h : ['n', 'i'] <+: cs ∨ cs ≠ [] ∧ ∀ c ∈ cs, c = '+' ∨ c ∈ digitChars) :
    table.lookup (String.ofList ('u' :: cs)) = none := by
  by_contra found
  obtain ⟨n, found⟩ := Option.ne_none_iff_exists'.1 found
  obtain ⟨apart, odd⟩ := (latin_spec found).2 rfl
  rcases h with isStart | ⟨ne, digit⟩
  · exact apart isStart
  · rcases odd with empty | other
    · exact ne empty
    · have same : cs.all (· ∈ '+' :: digitChars) = true :=
        List.all_eq_true.2 fun c hc => decide_eq_true (List.mem_cons.2 (digit c hc))
      exact Bool.false_ne_true (other.symm.trans same)

theorem mem_of_groups {Writes : List Char → Nat → Prop} {P : Char → Prop}
    (chars : ∀ digits n, Writes digits n → ∀ c ∈ digits, P c) {groups : List (List Char)}
    (each : List.Forall₂ (fun group c => group.length = 4 ∧ Writes group c.toNat) groups text) :
    groups.flatten.length = 4 * text.length ∧ ∀ c ∈ groups.flatten, P c := by
  induction each with
  | nil => simp
  | cons first _ ih =>
    rw [List.flatten_cons, List.length_append, first.1, ih.1, List.length_cons]
    exact ⟨by omega, List.forall_mem_append.2 ⟨chars _ _ first.2, ih.2⟩⟩

theorem baseText?_groups (size : 4 ≤ Utf8.size digits) (whole : Utf8.size digits % 4 = 0) :
    baseText? ('u' :: 'n' :: 'i' :: digits) = ofGroups? digits := by
  have unnamed : table.lookup (String.ofList ('u' :: 'n' :: 'i' :: digits)) = none :=
    lookup_numbered (.inl (List.prefix_append ['n', 'i'] digits))
  have behind : after? ['u', 'n', 'i'] ('u' :: 'n' :: 'i' :: digits) = some digits :=
    after?_eq_some_iff.2 rfl
  simp only [baseText?, unnamed, behind, Option.filter_some, size, whole, decide_true, BEq.rfl,
    Bool.and_self, if_true]

theorem baseText?_single (digit : ∀ c ∈ digits, c = '+' ∨ c ∈ digitChars)
    (least : 4 ≤ digits.length) (most : digits.length ≤ 6) :
    baseText? ('u' :: digits) = (do
      let n ← parse? 16 greatest32 digits
      let c ← scalar? n
      return [c]) := by
  have ne : digits ≠ [] := List.ne_nil_of_length_pos (by omega)
  have unnamed := lookup_numbered (.inr ⟨ne, digit⟩)
  have apart : after? ['u', 'n', 'i'] ('u' :: digits) = none := by
    rw [Option.eq_none_iff_forall_ne_some]
    intro rest found
    obtain rfl := (List.cons.inj (after?_eq_some_iff.1 found)).2
    exact absurd (digit 'n' (List.mem_cons_self ..)) (by decide)
  have behind : after? ['u'] ('u' :: digits) = some digits := after?_eq_some_iff.2 rfl
  simp only [baseText?, unnamed, apart, behind, Option.filter_none, Option.filter_some,
    size_of_numerals digit, least, most, decide_true, Bool.and_self, if_true]

theorem means_of_baseText? (h : baseText? name = some text) :
    Means (SpellsSigned 16) name text := by
  unfold baseText? at h
  split at h
  · next n found =>
    obtain rfl := Option.some.inj h
    exact .latin (by rw [toNat_ofNat_of_mem (mem_of_lookup found), found])
  · split at h
    · next digits found =>
      obtain ⟨behind, size⟩ := Option.filter_eq_some_iff.1 found
      obtain rfl := after?_eq_some_iff.1 behind
      obtain ⟨groups, rfl, each⟩ := ofGroups?_eq_some_iff.1 h
      refine .groups ?_ each
      rintro rfl
      cases each
      cases size
    · split at h
      · next digits found =>
        obtain ⟨behind, size⟩ := Option.filter_eq_some_iff.1 found
        obtain rfl := after?_eq_some_iff.1 behind
        simp only [Option.bind_eq_bind, Option.bind_eq_some_iff] at h
        obtain ⟨n, read, c, scalar, whole⟩ := h
        obtain rfl := Option.some.inj whole
        have written : SpellsSigned 16 digits c.toNat := numbered_iff.1 ⟨n, read, scalar⟩
        rw [size_of_numerals (written.mem (Nat.le_refl 16)), Bool.and_eq_true,
          decide_eq_true_eq, decide_eq_true_eq] at size
        exact .single size.1 size.2 written
      · cases h

theorem baseText?_eq_some_iff :
    baseText? name = some text ↔ Means (SpellsSigned 16) name text := by
  refine ⟨means_of_baseText?, fun h => ?_⟩
  cases h with
  | latin named =>
    simp only [baseText?, named, Char.ofNat_toNat]
  | groups ne each =>
    obtain ⟨length, digit⟩ := mem_of_groups (fun _ _ written => written.mem (Nat.le_refl 16)) each
    have pos : 0 < text.length := List.length_pos_iff.2 ne
    have size := (size_of_numerals digit).trans length
    rw [baseText?_groups (by omega) (by omega)]
    exact ofGroups?_eq_some_iff.2 ⟨_, rfl, each⟩
  | single least most written =>
    obtain ⟨n, read, scalar⟩ := numbered_iff.2 written
    rw [baseText?_single (written.mem (Nat.le_refl 16)) least most, read]
    simp only [Option.bind_eq_bind, Option.bind_some, scalar]
    rfl

theorem toText?_iff (name text : String) :
    toText? name = some text ↔ Means (SpellsSigned 16) (base name) text.toList := by
  rw [← baseText?_eq_some_iff, toText?, base, Option.map_eq_some_iff]
  constructor
  · rintro ⟨cs, found, rfl⟩
    rw [String.toList_ofList]
    exact found
  · intro found
    exact ⟨_, found, String.ofList_toList⟩

theorem Means.imp {Writes Writes' : List Char → Nat → Prop} (h : Means Writes name text)
    (sub : ∀ digits n, digits ⊆ name → Writes digits n → Writes' digits n) :
    Means Writes' name text := by
  cases h with
  | latin named => exact .latin named
  | @groups groups _ ne each =>
    have inside : ∀ group ∈ groups, group ⊆ 'u' :: 'n' :: 'i' :: groups.flatten := by
      intro group hg c hc
      have within : c ∈ groups.flatten := List.mem_flatten_of_mem hg hc
      exact List.mem_cons_of_mem _ (List.mem_cons_of_mem _ (List.mem_cons_of_mem _ within))
    refine .groups ne ?_
    clear ne
    generalize 'u' :: 'n' :: 'i' :: groups.flatten = name at sub inside
    induction each with
    | nil => exact .nil
    | cons first _ ih =>
      rw [List.forall_mem_cons] at inside
      exact .cons ⟨first.1, sub _ _ inside.1 first.2⟩ (ih inside.2)
  | single least most written =>
    exact .single least most (sub _ _ (List.subset_cons_self ..) written)

theorem Means.not_mem (h : Means (Spells 16) name text) {mark : Char}
    (odd : mark = '+' ∨ mark = '.') : mark ∉ name := by
  have prefixed : mark ∉ ['u', 'n', 'i'] := by rcases odd with rfl | rfl <;> decide
  have digit : mark ∉ digitChars := by rcases odd with rfl | rfl <;> decide
  have chars : ∀ digits n, Spells 16 digits n → ∀ c ∈ digits, c ≠ mark :=
    fun _ _ written c hc same => digit (same ▸ written.mem (Nat.le_refl 16) c hc)
  cases h with
  | latin named =>
    obtain ⟨plus, period⟩ := (latin_spec named).1
    rcases odd with rfl | rfl
    · exact plus
    · exact period
  | groups ne each =>
    have behind := (mem_of_groups chars each).2
    intro (inside : mark ∈ ['u', 'n', 'i'] ++ _)
    rcases List.mem_append.1 inside with front | back
    · exact prefixed front
    · exact behind mark back rfl
  | single least most written =>
    intro inside
    rcases List.mem_cons.1 inside with front | back
    · exact prefixed (front ▸ List.mem_cons_self ..)
    · exact chars _ _ written mark back rfl

def fourDigits (n : Nat) : List Char :=
  [n / 4096 % 16, n / 256 % 16, n / 16 % 16, n % 16].map fun d => d.digitChar.toUpper

def uniName (text : List Char) : List Char :=
  'u' :: 'n' :: 'i' :: text.flatMap fun c => fourDigits c.toNat

theorem spells_fourDigits (small : n < 0x10000) : Spells 16 (fourDigits n) n := by
  refine ⟨by simp [fourDigits], [n / 4096 % 16, n / 256 % 16, n / 16 % 16, n % 16], ?_, ?_⟩
  · rw [fourDigits, List.forall₂_map_left_iff, List.forall₂_same]
    intro d hd
    refine ⟨?_, .inr rfl⟩
    simp only [List.mem_cons, List.not_mem_nil, or_false] at hd
    omega
  · simp only [List.reverse_cons, List.reverse_nil, List.nil_append, List.cons_append,
      Nat.ofDigits_cons, Nat.ofDigits_nil]
    omega

theorem means_uniName (ne : text ≠ []) (small : ∀ c ∈ text, c.toNat < 0x10000) :
    Means (Spells 16) (uniName text) text := by
  rw [uniName, List.flatMap_def]
  refine .groups ne ?_
  rw [List.forall₂_map_left_iff, List.forall₂_same]
  exact fun c hc => ⟨rfl, spells_fourDigits (small c hc)⟩

theorem base_ofList (plain : '.' ∉ name) : base (String.ofList name) = name := by
  rw [base, String.toList_ofList, List.takeWhile_eq_self_iff]
  intro c hc
  have other : c ≠ '.' := fun same => plain (same ▸ hc)
  simpa using other

/-- A name means what its part in front of a period does, where numbers may have a plus sign. That
is what digits alone would give it just where no sign has a meaning, and so for all numbered names
that characters below 65536 have. -/
theorem toText?_eq_some_iff_means (name : String) :
    (∀ text : String,
      toText? name = some text ↔ Means (SpellsSigned 16) (base name) text.toList) ∧
    ((∀ text : String, toText? name = some text ↔ Means (Spells 16) (base name) text.toList) ↔
      ∀ text, Means (SpellsSigned 16) (base name) text → '+' ∉ base name) ∧
    ∀ text : List Char, name = String.ofList (uniName text) → text ≠ [] →
      (∀ c ∈ text, c.toNat < 0x10000) → toText? name = some (String.ofList text) := by
  refine ⟨toText?_iff name, ⟨fun plain text means => ?_, fun unsigned text => ?_⟩, ?_⟩
  · have found : toText? name = some (String.ofList text) := by
      rwa [toText?_iff, String.toList_ofList]
    exact ((plain _).1 found).not_mem (.inl rfl)
  · rw [toText?_iff]
    constructor
    · intro means
      have plain := unsigned _ means
      exact means.imp fun _ _ inside written => written.spells fun sign => plain (inside sign)
    · intro means
      exact means.imp fun _ _ _ written => .inl written
  · rintro text rfl ne small
    have means := means_uniName ne small
    have whole : base (String.ofList (uniName text)) = uniName text :=
      base_ofList (means.not_mem (.inr rfl))
    rw [toText?_iff, whole, String.toList_ofList]
    exact means.imp fun _ _ _ written => .inl written

theorem toText?_eq_some_iff_means_uniName :
    uniName ['A', 'é', '\uFFFD'] = "uni004100E9FFFD".toList ∧
      toText? "uni004100E9FFFD" = some "Aé\uFFFD" := by
  have written : uniName ['A', 'é', '\uFFFD'] = "uni004100E9FFFD".toList := by decide +kernel
  have small : ∀ c ∈ ['A', 'é', '\uFFFD'], c.toNat < 0x10000 := by
    simp only [List.forall_mem_cons]
    exact ⟨by decide, by decide, by decide, fun c hc => absurd hc List.not_mem_nil⟩
  have spelled : "uni004100E9FFFD" = String.ofList (uniName ['A', 'é', '\uFFFD']) := by
    rw [written, String.ofList_toList]
  have found := (toText?_eq_some_iff_means "uni004100E9FFFD").2.2 _ spelled (by simp) small
  exact ⟨written, found⟩

theorem toText?_ne_means :
    toText? "uni+041" = some "A" ∧ ¬ Means (Spells 16) (base "uni+041") ['A'] := by
  refine ⟨by decide +kernel, fun means => ?_⟩
  have sign : '+' ∈ base "uni+041" := by decide +kernel
  exact means.not_mem (.inl rfl) sign

end PdfContent.GlyphName
