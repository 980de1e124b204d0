import Mathlib.Data.List.Forall2
import Mathlib.Data.Nat.Digits.Lemmas
import PdfContent.Font.CodeReader

/-!
Codes of mixed lengths. Where no code of a codespace begins with another one, the bytes that follow
a code never make a shorter one of it, so a string is split into just those codes that it was put
together from.
-/

namespace PdfContent

variable {ranges : List CodespaceRange}

namespace CodespaceRange

structure IsSized (r : CodespaceRange) : Prop where
  same : r.low.length = r.high.length
  pos : 1 ≤ r.low.length
  le : r.low.length ≤ 4

def Matches (r : CodespaceRange) (s : Bytes) : Prop :=
  List.Forall₂ (fun bounds b => bounds.1 ≤ b ∧ b ≤ bounds.2) (r.low.zip r.high) s

/-- No code begins with a shorter one. -/
def PrefixFree (ranges : List CodespaceRange) : Prop :=
  ∀ r ∈ ranges, ∀ r' ∈ ranges, ∀ s code, r.Matches s → r'.Matches code → code <+: s → code = s

variable {r : CodespaceRange} {s : Bytes}

theorem Matches.length_eq (h : r.Matches s) (sized : r.IsSized) : s.length = r.byteLength := by
  have hl := List.Forall₂.length_eq h
  have hs := sized.same
  simp only [List.length_zip] at hl
  simp only [byteLength]
  omega

theorem covers_append_iff (sized : r.IsSized) (length : s.length = r.byteLength) (rest : Bytes) :
    r.covers (s ++ rest) = true ↔ r.Matches s := by
  have hs := sized.same
  have hl : (r.low.zip r.high).length = s.length := by
    simp only [List.length_zip]
    simp only [byteLength] at length
    omega
  have hle : r.low.length ≤ (s ++ rest).length := by
    simp only [List.length_append]
    simp only [byteLength] at length
    omega
  have hz : (r.low.zip r.high).zip (s ++ rest) = (r.low.zip r.high).zip s := by
    have h : (r.low.zip r.high ++ []).zip (s ++ rest) =
        (r.low.zip r.high).zip s ++ List.zip [] rest := List.zip_append hl
    simpa using h
  simp only [covers, hle, decide_true, Bool.true_and, hz, Matches, List.forall₂_iff_zip, hl,
    true_and, List.all_eq_true, Bool.and_eq_true, decide_eq_true_eq]
  constructor
  · intro h a b mem
    exact h (a, b) mem
  · intro h entry mem
    exact h mem

end CodespaceRange

namespace Bytes

theorem bigEndian_eq_ofDigits (s : Bytes) :
    bigEndian s = Nat.ofDigits 256 (s.reverse.map UInt8.toNat) := by
  rw [Nat.ofDigits_eq_foldr, List.map_reverse, List.foldr_reverse, List.foldl_map]
  simp only [bigEndian, Nat.cast_id, Nat.mul_comm, Nat.add_comm]

theorem ofDigits_lt_of_length_le {s : Bytes} {n : Nat} (h : s.length ≤ n) :
    Nat.ofDigits 256 (s.reverse.map UInt8.toNat) < 256 ^ n := by
  have hd : ∀ d ∈ s.reverse.map UInt8.toNat, d < 256 := by
    intro d mem
    obtain ⟨b, -, rfl⟩ := List.mem_map.1 mem
    exact b.toNat_lt
  have hlt := Nat.ofDigits_lt_base_pow_length (by decide) hd
  rw [List.length_map, List.length_reverse] at hlt
  exact hlt.trans_le (Nat.pow_le_pow_right (by decide) h)

end Bytes

namespace CodeReader

open CodespaceRange

variable {s : Bytes}

theorem ofBytes_eq (h : s.length ≤ 4) :
    ofBytes s = ⟨Nat.ofDigits 256 (s.reverse.map UInt8.toNat), s⟩ := by
  have hlt : Nat.ofDigits 256 (s.reverse.map UInt8.toNat) < 0x100000000 :=
    Bytes.ofDigits_lt_of_length_le h
  simp only [ofBytes, Bytes.bigEndian_eq_ofDigits]
  rw [Nat.mod_eq_of_lt hlt]

theorem codespaceLength_of_matches (sized : ∀ r ∈ ranges, r.IsSized) (free : PrefixFree ranges)
    {r : CodespaceRange} (mem : r ∈ ranges) {first : UInt8} (h : r.Matches (first :: s))
    (rest : Bytes) : codespaceLength ranges first (s ++ rest) = (first :: s).length := by
  have length : (first :: s).length = r.byteLength := h.length_eq (sized r mem)
  have found : (ranges.any fun r => r.byteLength == (first :: s).length &&
      r.covers (first :: (s ++ rest))) = true := by
    rw [List.any_eq_true]
    refine ⟨r, mem, ?_⟩
    rw [Bool.and_eq_true, length, ← List.cons_append]
    exact ⟨beq_self_eq_true _, (covers_append_iff (sized r mem) length rest).2 h⟩
  -- A shorter code here would be a code that this one begins with.
  have shorter : ∀ n, n < (first :: s).length → (ranges.any fun r => r.byteLength == n &&
      r.covers (first :: (s ++ rest))) = false := by
    intro n lt
    rw [Bool.eq_false_iff]
    intro any
    obtain ⟨r', mem', hr⟩ := List.any_eq_true.1 any
    rw [Bool.and_eq_true, beq_iff_eq] at hr
    have hlen : ((first :: s).take n).length = r'.byteLength := by
      rw [List.length_take, hr.1]
      omega
    have hsplit : first :: (s ++ rest) =
        (first :: s).take n ++ ((first :: s).drop n ++ rest) := by
      rw [← List.append_assoc, List.take_append_drop, List.cons_append]
    have code : r'.Matches ((first :: s).take n) := by
      rw [← covers_append_iff (sized r' mem') hlen, ← hsplit]
      exact hr.2
    have same := free r mem r' mem' (first :: s) _ h code (List.take_prefix n _)
    have := congrArg List.length same
    rw [List.length_take] at this
    omega
  have pos := (sized r mem).pos
  have le := (sized r mem).le
  simp only [byteLength] at length
  have cases : (first :: s).length = 1 ∨ (first :: s).length = 2 ∨ (first :: s).length = 3 ∨
      (first :: s).length = 4 := by
    omega
  unfold codespaceLength
  rcases cases with hn | hn | hn | hn
  · rw [hn] at found ⊢
    simp only [List.find?_cons, found]
  · rw [hn] at found shorter ⊢
    simp only [List.find?_cons, shorter 1 (by decide), found]
  · rw [hn] at found shorter ⊢
    simp only [List.find?_cons, shorter 1 (by decide), shorter 2 (by decide), found]
  · rw [hn] at found shorter ⊢
    simp only [List.find?_cons, shorter 1 (by decide), shorter 2 (by decide),
      shorter 3 (by decide), found]

theorem readFrom_append {reader : CodeReader} {first : UInt8} {rest : Bytes}
    (length : reader.codeLength first (s ++ rest) = (first :: s).length) (offset : Nat) :
    reader.readFrom offset ((first :: s) ++ rest) =
      (reader.readFrom (offset + (first :: s).length) rest).map (ofBytes (first :: s) :: ·) := by
  rw [List.cons_append, readFrom]
  simp only [length, List.length_cons, Nat.add_sub_cancel, List.length_append, List.drop_left,
    List.take_left]
  rw [if_neg (by omega)]

theorem readFrom_flatten_of_length {reader : CodeReader} {codes : List Bytes}
    (told : ∀ s ∈ codes, ∃ first tail, s = first :: tail ∧
      ∀ rest, reader.codeLength first (tail ++ rest) = s.length) (offset : Nat) :
    reader.readFrom offset codes.flatten = .ok (codes.map ofBytes) := by
  induction codes generalizing offset with
  | nil => simp [readFrom]
  | cons s codes ih =>
    obtain ⟨first, tail, rfl, length⟩ := told s (List.mem_cons_self ..)
    rw [List.flatten_cons, readFrom_append (length codes.flatten),
      ih fun s hs => told s (List.mem_cons_of_mem _ hs)]
    rfl

theorem readFrom_flatten (sized : ∀ r ∈ ranges, r.IsSized) (free : PrefixFree ranges)
    {codes : List Bytes} (mem : ∀ s ∈ codes, ∃ r ∈ ranges, r.Matches s) (offset : Nat) :
    (codespace ranges).readFrom offset codes.flatten = .ok (codes.map ofBytes) := by
  refine readFrom_flatten_of_length (fun s hs => ?_) offset
  obtain ⟨r, hr, matched⟩ := mem s hs
  cases s with
  | nil =>
    have length := matched.length_eq (sized r hr)
    have pos := (sized r hr).pos
    simp only [byteLength, List.length_nil] at length
    omega
  | cons first tail =>
    exact ⟨first, tail, rfl, codespaceLength_of_matches sized free hr matched⟩

/-- A string put together from codes of a prefix-free codespace is split into just these codes, in
order, each with its big-endian value. -/
theorem readCodes_flatten (sized : ∀ r ∈ ranges, r.IsSized) (free : PrefixFree ranges)
    {codes : List Bytes} (mem : ∀ s ∈ codes, ∃ r ∈ ranges, r.Matches s) :
    (codespace ranges).readCodes codes.flatten =
      .ok (codes.map fun s => ⟨Nat.ofDigits 256 (s.reverse.map UInt8.toNat), s⟩) := by
  have read : (codespace ranges).readCodes codes.flatten = .ok (codes.map ofBytes) :=
    readFrom_flatten sized free mem 0
  rw [read]
  congr 1
  apply List.map_congr_left
  intro s hs
  obtain ⟨r, hr, matched⟩ := mem s hs
  have length := matched.length_eq (sized r hr)
  have le := (sized r hr).le
  exact ofBytes_eq (by simp only [byteLength] at length; omega)

def mixedRanges : List CodespaceRange :=
  [⟨[0x00], [0x80]⟩, ⟨[0x81, 0x40], [0xFE, 0xFE]⟩]

theorem readCodes_flatten_mixedRanges :
    (∀ r ∈ mixedRanges, r.IsSized) ∧ PrefixFree mixedRanges ∧
      (∀ s ∈ [[0x41], [0x81, 0x40], [0x20]], ∃ r ∈ mixedRanges, r.Matches s) ∧
      (codespace mixedRanges).readCodes [0x41, 0x81, 0x40, 0x20] =
        .ok [⟨0x41, [0x41]⟩, ⟨0x8140, [0x81, 0x40]⟩, ⟨0x20, [0x20]⟩] := by
  have sized : ∀ r ∈ mixedRanges, r.IsSized := by
    intro r mem
    simp only [mixedRanges, List.mem_cons, List.not_mem_nil, or_false] at mem
    rcases mem with rfl | rfl <;> constructor <;> decide
  have single : ∀ s : Bytes, (⟨[0x00], [0x80]⟩ : CodespaceRange).Matches s ↔
      ∃ b, b ≤ 0x80 ∧ s = [b] := by
    intro s
    simp [Matches, List.forall₂_cons_left_iff]
  have double : ∀ s : Bytes, (⟨[0x81, 0x40], [0xFE, 0xFE]⟩ : CodespaceRange).Matches s ↔
      ∃ a b, (0x81 ≤ a ∧ a ≤ 0xFE) ∧ (0x40 ≤ b ∧ b ≤ 0xFE) ∧ s = [a, b] := by
    intro s
    simp [Matches, List.forall₂_cons_left_iff]
  have free : PrefixFree mixedRanges := by
    intro r mem r' mem' s code h h' start
    simp only [mixedRanges, List.mem_cons, List.not_mem_nil, or_false] at mem mem'
    rcases mem with rfl | rfl <;> rcases mem' with rfl | rfl
    · obtain ⟨b, -, rfl⟩ := (single s).1 h
      obtain ⟨b', -, rfl⟩ := (single code).1 h'
      simpa using start
    · obtain ⟨b, -, rfl⟩ := (single s).1 h
      obtain ⟨a', b', -, -, rfl⟩ := (double code).1 h'
      simp at start
    · obtain ⟨a, b, ha, -, rfl⟩ := (double s).1 h
      obtain ⟨b', hb', rfl⟩ := (single code).1 h'
      have same : b' = a := by simpa using start
      subst same
      exact absurd (UInt8.le_trans ha.1 hb') (by decide)
    · obtain ⟨a, b, -, -, rfl⟩ := (double s).1 h
      obtain ⟨a', b', -, -, rfl⟩ := (double code).1 h'
      simpa using start
  have mem : ∀ s ∈ [[0x41], [0x81, 0x40], [0x20]], ∃ r ∈ mixedRanges, r.Matches s := by
    intro s hs
    simp only [List.mem_cons, List.not_mem_nil, or_false] at hs
    rcases hs with rfl | rfl | rfl
    · exact ⟨_, List.mem_cons_self .., (single _).2 ⟨0x41, by decide, rfl⟩⟩
    · exact ⟨_, List.mem_cons_of_mem _ (List.mem_cons_self ..),
        (double _).2 ⟨0x81, 0x40, by decide, by decide, rfl⟩⟩
    · exact ⟨_, List.mem_cons_self .., (single _).2 ⟨0x20, by decide, rfl⟩⟩
  exact ⟨sized, free, mem, readCodes_flatten sized free mem⟩

end CodeReader

end PdfContent
