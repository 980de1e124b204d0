import PdfContent.Proofs.Lookahead
import PdfContent.Proofs.TextBytes

/-!
How names are written. A byte of a name stands for itself where it is regular, or as a number sign
with its two hexadecimal digits; a number sign that two digits follow is always read as such. Every
run of regular bytes spells one name, and reading gives back the name that was spelled.
-/

namespace PdfContent

namespace Byte

def hexDigit (value : Nat) : UInt8 :=
  if value < 10 then UInt8.ofNat (value + 0x30) else UInt8.ofNat (value + 0x37)

def hexPair (b : UInt8) : Bytes := [hexDigit (b.toNat / 16), hexDigit (b.toNat % 16)]

theorem hexValue_hexDigit {value : Nat} (h : value < 16) :
    hexValue (hexDigit value) = some value := by
  have all : ∀ n : Fin 16, hexValue (hexDigit n) = some n.val := by decide
  exact all ⟨value, h⟩

theorem isRegular_of_hexValue {b : UInt8} {value : Nat} (h : hexValue b = some value) :
    isRegular b = true := by
  have all : ∀ b, (hexValue b).isSome = true → isRegular b = true :=
    forall_of_fin (by decide +kernel)
  exact all b (Option.isSome_of_eq_some h)

theorem halves (b : UInt8) : (b.toNat / 16 * 16 + b.toNat % 16).toUInt8 = b := by
  rw [Nat.div_add_mod']
  exact UInt8.ofNat_toNat

theorem half_lt (b : UInt8) : b.toNat / 16 < 16 ∧ b.toNat % 16 < 16 := by
  have := b.toNat_lt
  omega

end Byte

def Bytes.EndsRun (t : Bytes) : Prop := ∀ b ∈ t.head?, Byte.isRegular b = false

theorem Bytes.endsRun_nil : EndsRun [] := by
  rintro c ⟨⟩

theorem Bytes.endsRun_cons {b : UInt8} (h : Byte.isRegular b = false) (t : Bytes) :
    EndsRun (b :: t) := by
  rintro c ⟨⟩
  exact h

namespace Operand

def startsWithHexPair : Bytes → Bool
  | h :: l :: _ => (Byte.hexValue h).isSome && (Byte.hexValue l).isSome
  | _ => false

inductive Spells : Bytes → Bytes → Prop
  | nil : Spells [] []
  | plain {b : UInt8} {written name : Bytes} (regular : Byte.isRegular b = true)
      (sign : b = Byte.hash → startsWithHexPair written = false) (rest : Spells written name) :
      Spells (b :: written) (b :: name)
  | escaped {h l : UInt8} {high low : Nat} {written name : Bytes}
      (first : Byte.hexValue h = some high) (second : Byte.hexValue l = some low)
      (rest : Spells written name) :
      Spells (Byte.hash :: h :: l :: written) ((high * 16 + low).toUInt8 :: name)

theorem unescapeName_plain {b : UInt8} {written : Bytes}
    (sign : b = Byte.hash → startsWithHexPair written = false) :
    unescapeName (b :: written) = b :: unescapeName written := by
  match written with
  | [] => rfl
  | [c] => rfl
  | h :: l :: rest =>
    rw [unescapeName]
    by_cases hb : b = Byte.hash
    · have hpair := sign hb
      simp only [startsWithHexPair, Bool.and_eq_false_iff, Option.isSome_eq_false_iff,
        Option.isNone_iff_eq_none] at hpair
      subst hb
      rcases hpair with hn | hn
      · simp only [BEq.rfl, if_true, hn]
      · simp only [BEq.rfl, if_true, hn]
        cases Byte.hexValue h <;> rfl
    · rw [if_neg (by simpa using hb)]

theorem unescapeName_escaped {h l : UInt8} {high low : Nat} (first : Byte.hexValue h = some high)
    (second : Byte.hexValue l = some low) (written : Bytes) :
    unescapeName (Byte.hash :: h :: l :: written) =
      (high * 16 + low).toUInt8 :: unescapeName written := by
  rw [unescapeName]
  simp only [BEq.rfl, if_true, first, second]

theorem Spells.regular {written name : Bytes} (h : Spells written name) :
    ∀ b ∈ written, Byte.isRegular b = true := by
  induction h with
  | nil => simp
  | plain regular _ _ ih => exact List.forall_mem_cons.2 ⟨regular, ih⟩
  | escaped first second _ ih =>
    have hash : Byte.isRegular Byte.hash = true := by decide
    refine List.forall_mem_cons.2 ⟨hash, List.forall_mem_cons.2 ⟨?_, ?_⟩⟩
    · exact Byte.isRegular_of_hexValue first
    · exact List.forall_mem_cons.2 ⟨Byte.isRegular_of_hexValue second, ih⟩

theorem Spells.unescapeName_eq {written name : Bytes} (h : Spells written name) :
    unescapeName written = name := by
  induction h with
  | nil => rfl
  | plain _ sign _ ih => rw [unescapeName_plain sign, ih]
  | escaped first second _ ih => rw [unescapeName_escaped first second, ih]

theorem spells_unescapeName (written : Bytes) (regular : ∀ b ∈ written, Byte.isRegular b = true) :
    Spells written (unescapeName written) := by
  fun_induction unescapeName written with
  | case1 => exact .nil
  | case2 a =>
    rw [List.forall_mem_singleton] at regular
    exact .plain regular (fun _ => rfl) .nil
  | case3 a b =>
    rw [List.forall_mem_cons, List.forall_mem_singleton] at regular
    exact .plain regular.1 (fun _ => rfl) (.plain regular.2 (fun _ => rfl) .nil)
  | case4 a b c s ha h l second first ih =>
    obtain rfl : a = Byte.hash := by simpa using ha
    have hrest : ∀ d ∈ s, Byte.isRegular d = true := fun d hd =>
      regular d (List.mem_cons_of_mem _ (List.mem_cons_of_mem _ (List.mem_cons_of_mem _ hd)))
    exact .escaped first second (ih hrest)
  | case5 a b c s ha hn ih =>
    rw [List.forall_mem_cons] at regular
    refine .plain regular.1 (fun _ => ?_) (ih regular.2)
    cases hb : Byte.hexValue b with
    | none => rw [startsWithHexPair, hb, Option.isSome_none, Bool.false_and]
    | some h =>
      cases hc : Byte.hexValue c with
      | none => rw [startsWithHexPair, hc, Option.isSome_none, Bool.and_false]
      | some l => exact absurd hc (hn h l hb)
  | case6 a b c s ha ih =>
    rw [List.forall_mem_cons] at regular
    have ha : a ≠ Byte.hash := by simpa using ha
    exact .plain regular.1 (fun h => absurd h ha) (ih regular.2)

theorem spells_iff {written name : Bytes} :
    Spells written name ↔
      (∀ b ∈ written, Byte.isRegular b = true) ∧ unescapeName written = name := by
  constructor
  · intro h
    exact ⟨h.regular, h.unescapeName_eq⟩
  · rintro ⟨regular, rfl⟩
    exact spells_unescapeName written regular

theorem readName_of_spells {written name t : Bytes} (h : Spells written name)
    (ends : Bytes.EndsRun t) :
    readName (written ++ t) = (name.toText, t) := by
  obtain ⟨h₁, h₂⟩ := Bytes.span_append h.regular ends
  rw [readName, spanRegular, h₁, h₂, h.unescapeName_eq]

theorem readStart_name {written name t : Bytes} (h : Spells written name)
    (ends : Bytes.EndsRun t) (opened : List Opened) :
    readStart opened (Byte.slash :: (written ++ t)) =
      .ok (place (.name name.toText) opened, t) := by
  change Except.ok (place (.name (readName (written ++ t)).1) opened, _) = _
  rw [readName_of_spells h ends]

section

variable {written t : Bytes} {name : String}

theorem readName_spelled (h : Spells written (Bytes.ofUtf8 name)) (ends : Bytes.EndsRun t) :
    readName (written ++ t) = (name, t) := by
  rw [readName_of_spells h ends, Bytes.toText_ofUtf8]

theorem readStart_spelledName (h : Spells written (Bytes.ofUtf8 name)) (ends : Bytes.EndsRun t)
    (opened : List Opened) :
    readStart opened (Byte.slash :: (written ++ t)) = .ok (place (.name name) opened, t) := by
  have read := readStart_name h ends opened
  rwa [Bytes.toText_ofUtf8] at read

theorem readStep_spelledKey (h : Spells written (Bytes.ofUtf8 name)) (ends : Bytes.EndsRun t)
    (entries : List (String × Operand)) (opened : List Opened) :
    readStep (.dictionary entries :: opened) (Byte.slash :: (written ++ t)) =
      .ok (.within (.entry entries name :: opened), t) := by
  have apart : skipBlank (Byte.slash :: (written ++ t)) = Byte.slash :: (written ++ t) :=
    skipBlank_of_not_isGap (by decide) _
  simp only [readStep, apart, BEq.rfl, if_true, readName_spelled h ends]

end

def escapeByte (b : UInt8) : Bytes :=
  if Byte.isRegular b && b != Byte.hash then [b] else Byte.hash :: Byte.hexPair b

def escapeName (name : Bytes) : Bytes := name.flatMap escapeByte

theorem escapeName_spells (name : Bytes) : Spells (escapeName name) name := by
  induction name with
  | nil => exact .nil
  | cons b name ih =>
    rw [escapeName, List.flatMap_cons, escapeByte]
    split_ifs with hb
    · obtain ⟨regular, sign⟩ : Byte.isRegular b = true ∧ b ≠ Byte.hash := by simpa using hb
      exact .plain regular (fun h => absurd h sign) ih
    · have hhigh := Byte.hexValue_hexDigit (Byte.half_lt b).1
      have hlow := Byte.hexValue_hexDigit (Byte.half_lt b).2
      have hspells := Spells.escaped hhigh hlow ih
      rwa [Byte.halves] at hspells

end Operand

end PdfContent
