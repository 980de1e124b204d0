import PdfContent.Proofs.CidMeaning
import PdfContent.Proofs.Codespaces
import PdfContent.Proofs.IdentityMaps

/-!
Splitting a string neither loses nor invents bytes. How long a code is depends on no byte behind it,
and a code that breaks off has the length it was said to have, however it is completed. So the codes
of a string are, one behind the other, the string, and a string that cannot be split is made of
codes with a part of one more behind them.
-/

namespace PdfContent

theorem bind_eq_ok {ε α β : Type} {x : Except ε α} {f : α → Except ε β} {b : β}
    (h : x.bind f = .ok b) : ∃ a, x = .ok a ∧ f a = .ok b := by
  cases x with
  | error e => cases h
  | ok a => exact ⟨a, rfl, h⟩

theorem map_eq_error_iff {ε α β : Type} {x : Except ε α} {f : α → β} {e : ε} :
    x.map f = .error e ↔ x = .error e := by
  cases x <;> simp [Except.map]

namespace CodespaceRange

/-- The bounds have the same number of bytes, at least one. -/
structure IsProper (r : CodespaceRange) : Prop where
  same : r.low.length = r.high.length
  ne : r.low ≠ []

variable {r : CodespaceRange} {s : Bytes}

theorem IsProper.byteLength_pos (proper : r.IsProper) : 0 < r.byteLength :=
  List.length_pos_iff.2 proper.ne

theorem covers_append (proper : r.IsProper) (le : r.byteLength ≤ s.length) (rest : Bytes) :
    r.covers (s ++ rest) = r.covers s := by
  have hs := proper.same
  simp only [byteLength] at le
  have whole : (r.low.zip r.high).length = (s.take r.low.length).length := by
    rw [List.length_zip, List.length_take]
    omega
  have ahead : ∀ more, (r.low.zip r.high).zip (s.take r.low.length ++ more) =
      (r.low.zip r.high).zip (s.take r.low.length) := by
    intro more
    have h : (r.low.zip r.high ++ []).zip (s.take r.low.length ++ more) =
        (r.low.zip r.high).zip (s.take r.low.length) ++ List.zip [] more := List.zip_append whole
    simpa using h
  have cut : (r.low.zip r.high).zip (s ++ rest) = (r.low.zip r.high).zip s := by
    conv_lhs => rw [← List.take_append_drop r.low.length s, List.append_assoc, ahead]
    conv_rhs => rw [← List.take_append_drop r.low.length s, ahead]
  have longer : r.low.length ≤ (s ++ rest).length := by
    rw [List.length_append]
    omega
  simp only [covers, cut, le, longer]

theorem byteLength_le_of_covers (h : r.covers s = true) : r.byteLength ≤ s.length := by
  simp only [covers, Bool.and_eq_true, decide_eq_true_eq] at h
  exact h.1

theorem coversFirst_of_covers (proper : r.IsProper) {first : UInt8}
    (h : r.covers (first :: s) = true) : r.coversFirst first = true := by
  obtain ⟨low, high⟩ := r
  cases low with
  | nil => exact absurd rfl proper.ne
  | cons a low =>
    cases high with
    | nil => cases proper.same
    | cons b high =>
      simp only [covers, List.zip_cons_cons, List.all_cons, Bool.and_eq_true] at h
      simp only [coversFirst, Bool.and_eq_true]
      exact h.2.1

end CodespaceRange

namespace CidCMap

open CMap CodespaceRange

theorem isProper_of_pairRanges (tokens : List (List Char)) :
    ∀ ranges, pairRanges tokens = .ok ranges → ∀ r ∈ ranges, r.IsProper := by
  fun_induction pairRanges tokens with
  | case1 low high rest ih =>
    intro ranges read
    obtain ⟨lowBytes, -, read⟩ := bind_eq_ok read
    obtain ⟨highBytes, -, read⟩ := bind_eq_ok read
    obtain ⟨later, laterRead, read⟩ := bind_eq_ok read
    have proper := ih later laterRead
    split at read
    · rename_i usable
      rw [Bool.and_eq_true, beq_iff_eq, Bool.not_eq_true', List.isEmpty_eq_false_iff] at usable
      cases read
      exact List.forall_mem_cons.2 ⟨⟨usable.1, usable.2⟩, proper⟩
    · cases read
      exact proper
  | case2 tokens short =>
    intro ranges read
    cases read
    simp

theorem isProper_of_gather {lines : List (List Char)} :
    ∀ ranges, gather readSpaces id lines = .ok ranges → ∀ r ∈ ranges, r.IsProper := by
  induction lines with
  | nil =>
    intro ranges read
    cases read
    simp
  | cons line lines ih =>
    intro ranges read
    rw [gather_cons] at read
    obtain ⟨here, hereRead, read⟩ := bind_eq_ok read
    obtain ⟨found, foundRead, rfl⟩ := map_eq_ok hereRead
    obtain ⟨later, laterRead, rfl⟩ := map_eq_ok read
    exact List.forall_mem_append.2 ⟨isProper_of_pairRanges _ found foundRead, ih later laterRead⟩

theorem isProper_of_parse {data : Bytes} {m : CidCMap} (read : parse data = .ok m) :
    ∀ r ∈ m.codespaces, r.IsProper := by
  rw [parse, parseText_eq_gather] at read
  obtain ⟨spaces, spacesRead, read⟩ := bind_eq_ok read
  obtain ⟨singles, -, read⟩ := bind_eq_ok read
  obtain ⟨ranges, -, rfl⟩ := map_eq_ok read
  rw [codespaces_foldl]
  exact isProper_of_gather spaces spacesRead

end CidCMap

namespace CodeReader

open CodespaceRange

/-- The length of the next code depends only on its own bytes, and on those of them that are
there when the string breaks off. -/
structure Steady (reader : CodeReader) : Prop where
  pos : ∀ first rest, 0 < reader.codeLength first rest
  cut : ∀ first s rest, reader.codeLength first (s ++ rest) ≤ s.length + 1 →
    reader.codeLength first s = reader.codeLength first (s ++ rest)
  completed : ∀ first s more, (s ++ more).length + 1 = reader.codeLength first s →
    reader.codeLength first (s ++ more) = reader.codeLength first s

theorem steady_of_first {reader : CodeReader} (length : UInt8 → Nat)
    (pos : ∀ first, 0 < length first)
    (told : ∀ first rest, reader.codeLength first rest = length first) : reader.Steady where
  pos first rest := by rw [told]; exact pos first
  cut first s rest _ := by rw [told, told]
  completed first s more _ := by rw [told, told]

theorem steady_singleByte : singleByte.Steady :=
  steady_of_first (fun _ => 1) (fun _ => Nat.one_pos) fun _ _ => rfl

theorem steady_twoByte : twoByte.Steady :=
  steady_of_first (fun _ => 2) (fun _ => Nat.two_pos) fun _ _ => rfl

theorem steady_utf16 : utf16.Steady :=
  steady_of_first (fun first => if 0xD8 ≤ first && first ≤ 0xDB then 4 else 2)
    (fun first => by split <;> decide) fun _ _ => rfl

theorem steady_legacy (charset : Charset) : (legacy charset).Steady :=
  steady_of_first (fun first => if charset.isLead first then 2 else 1)
    (fun first => by split <;> decide) fun _ _ => rfl

section Codespace

variable {ranges : List CodespaceRange}

def coveredBy (ranges : List CodespaceRange) (s : Bytes) (n : Nat) : Bool :=
  ranges.any fun r => r.byteLength == n && r.covers s

def fallback (ranges : List CodespaceRange) (first : UInt8) : Nat :=
  ((shortest? (ranges.filter fun r => r.coversFirst first)).or (shortest? ranges)).getD 1

theorem coveredBy_iff {s : Bytes} {n : Nat} :
    coveredBy ranges s n = true ↔ ∃ r ∈ ranges, r.byteLength = n ∧ r.covers s = true := by
  simp only [coveredBy, List.any_eq_true, Bool.and_eq_true, beq_iff_eq]

theorem le_of_coveredBy {s : Bytes} {n : Nat} (h : coveredBy ranges s n = true) :
    n ≤ s.length := by
  obtain ⟨r, -, rfl, covers⟩ := coveredBy_iff.1 h
  exact byteLength_le_of_covers covers

theorem coveredBy_append (proper : ∀ r ∈ ranges, r.IsProper) {s : Bytes} {n : Nat}
    (le : n ≤ s.length) (rest : Bytes) : coveredBy ranges (s ++ rest) n = coveredBy ranges s n := by
  rw [Bool.eq_iff_iff, coveredBy_iff, coveredBy_iff]
  constructor
  · rintro ⟨r, mem, rfl, covers⟩
    exact ⟨r, mem, rfl, by rwa [covers_append (proper r mem) le] at covers⟩
  · rintro ⟨r, mem, rfl, covers⟩
    exact ⟨r, mem, rfl, by rwa [covers_append (proper r mem) le]⟩

/-- The shortest covered length of one to four, or the fallback. -/
inductive Chosen (ranges : List CodespaceRange) (first : UInt8) (rest : Bytes) : Nat → Prop
  | covered {n : Nat} (pos : 1 ≤ n) (le : n ≤ 4) (here : coveredBy ranges (first :: rest) n = true)
      (least : ∀ k, 1 ≤ k → k < n → coveredBy ranges (first :: rest) k = false) :
      Chosen ranges first rest n
  | uncovered (none : ∀ k, 1 ≤ k → k ≤ 4 → coveredBy ranges (first :: rest) k = false) :
      Chosen ranges first rest (fallback ranges first)

theorem codespaceLength_eq (first : UInt8) (rest : Bytes) :
    codespaceLength ranges first rest =
      ((List.range' 1 4).find? (coveredBy ranges (first :: rest))).getD
        (fallback ranges first) := by
  unfold codespaceLength
  extract_lets covers
  split
  · next n found => exact (congrArg (Option.getD · (fallback ranges first)) found).symm
  · next found => exact (congrArg (Option.getD · (fallback ranges first)) found).symm

theorem chosen_codespaceLength (first : UInt8) (rest : Bytes) :
    Chosen ranges first rest (codespaceLength ranges first rest) := by
  rw [codespaceLength_eq]
  cases found : (List.range' 1 4).find? (coveredBy ranges (first :: rest)) with
  | some n =>
    obtain ⟨here, mem, least⟩ := List.find?_range'_eq_some.1 found
    obtain ⟨pos, lt⟩ := List.mem_range'_1.1 mem
    exact .covered pos (Nat.le_of_lt_succ lt) here fun k lower lt => by
      simpa using least k lower lt
  | none =>
    have none := List.find?_range'_eq_none.1 found
    exact .uncovered fun k pos le => by simpa using none k pos (by omega)

theorem Chosen.eq_codespaceLength {first : UInt8} {rest : Bytes} {n : Nat}
    (h : Chosen ranges first rest n) : codespaceLength ranges first rest = n := by
  rw [codespaceLength_eq]
  cases h with
  | covered pos le here least =>
    have mem : n ∈ List.range' 1 4 := List.mem_range'_1.2 ⟨pos, by omega⟩
    have found := List.find?_range'_eq_some.2
      ⟨here, mem, fun k lower lt => by simp [least k lower lt]⟩
    rw [found, Option.getD_some]
  | uncovered none =>
    have found : (List.range' 1 4).find? (coveredBy ranges (first :: rest)) = .none :=
      List.find?_range'_eq_none.2 fun k pos lt => by simp [none k pos (by omega)]
    rw [found, Option.getD_none]

theorem byteLength_mem_shortest? {list : List CodespaceRange} {n : Nat}
    (h : shortest? list = some n) : ∃ r ∈ list, r.byteLength = n :=
  List.mem_map.1 (List.min?_eq_some_iff.1 h).1

theorem fallback_pos (proper : ∀ r ∈ ranges, r.IsProper) (first : UInt8) :
    0 < fallback ranges first := by
  rw [fallback]
  cases near : shortest? (ranges.filter fun r => r.coversFirst first) with
  | some n =>
    obtain ⟨r, mem, rfl⟩ := byteLength_mem_shortest? near
    exact (proper r (List.mem_filter.1 mem).1).byteLength_pos
  | none =>
    cases all : shortest? ranges with
    | some n =>
      obtain ⟨r, mem, rfl⟩ := byteLength_mem_shortest? all
      exact (proper r mem).byteLength_pos
    | none => exact Nat.one_pos

theorem fallback_le {first : UInt8} {r : CodespaceRange} (mem : r ∈ ranges)
    (begins : r.coversFirst first = true) : fallback ranges first ≤ r.byteLength := by
  have near : r ∈ ranges.filter fun r => r.coversFirst first := List.mem_filter.2 ⟨mem, begins⟩
  rw [fallback]
  cases found : shortest? (ranges.filter fun r => r.coversFirst first) with
  | some n => exact (List.min?_eq_some_iff.1 found).2 _ (List.mem_map_of_mem near)
  | none =>
    have empty := List.map_eq_nil_iff.1 (List.min?_eq_none_iff.1 found)
    rw [empty] at near
    cases near

theorem Chosen.cut (proper : ∀ r ∈ ranges, r.IsProper) {first : UInt8} {s rest : Bytes} {n : Nat}
    (h : Chosen ranges first (s ++ rest) n) (le : n ≤ s.length + 1) : Chosen ranges first s n := by
  have same : ∀ k, k ≤ s.length + 1 →
      coveredBy ranges (first :: (s ++ rest)) k = coveredBy ranges (first :: s) k :=
    fun k le => coveredBy_append (s := first :: s) proper le rest
  cases h with
  | covered pos small here least =>
    refine .covered pos small (by rwa [same n le] at here) fun k lower lt => ?_
    rw [← same k (by omega)]
    exact least k lower lt
  | uncovered none =>
    refine .uncovered fun k pos small => ?_
    by_cases within : k ≤ s.length + 1
    · rw [← same k within]
      exact none k pos small
    · exact Bool.eq_false_iff.2 fun here => within (le_of_coveredBy here)

theorem Chosen.pos (proper : ∀ r ∈ ranges, r.IsProper) {first : UInt8} {rest : Bytes} {n : Nat}
    (h : Chosen ranges first rest n) : 0 < n := by
  cases h with
  | covered pos _ _ _ => exact pos
  | uncovered _ => exact fallback_pos proper first

theorem Chosen.completed (proper : ∀ r ∈ ranges, r.IsProper) {first : UInt8} {s more : Bytes}
    {n m : Nat} (h : Chosen ranges first s n) (length : (s ++ more).length + 1 = n)
    (h' : Chosen ranges first (s ++ more) m) : m = n := by
  rw [List.length_append] at length
  cases h with
  | covered pos le here least =>
    have within : n ≤ s.length + 1 := le_of_coveredBy here
    have nothing : more = [] := List.eq_nil_of_length_eq_zero (by omega)
    rw [nothing, List.append_nil] at h'
    rw [← h'.eq_codespaceLength, (Chosen.covered pos le here least).eq_codespaceLength]
  | uncovered none =>
    cases h' with
    | uncovered none => rfl
    | covered pos le here least =>
      -- What covers the completed code begins like it, so it is not shorter than the fallback.
      obtain ⟨r, mem, rfl, covers⟩ := coveredBy_iff.1 here
      have lower := fallback_le mem (coversFirst_of_covers (proper r mem) covers)
      have upper := byteLength_le_of_covers covers
      rw [List.length_cons, List.length_append] at upper
      omega

theorem steady_codespace (proper : ∀ r ∈ ranges, r.IsProper) : (codespace ranges).Steady where
  pos first rest := (chosen_codespaceLength first rest).pos proper
  cut first s rest le :=
    ((chosen_codespaceLength first (s ++ rest)).cut proper le).eq_codespaceLength
  completed first s _ length :=
    (chosen_codespaceLength first s).completed proper length (chosen_codespaceLength first _)

end Codespace

inductive Obtained : CodeReader → Prop
  | singleByte : Obtained singleByte
  | twoByte : Obtained twoByte
  | ofPredefined (map : PredefinedCMap) : Obtained (ofPredefined map)
  | ofEmbedded {data : Bytes} {map : CidCMap} (read : CidCMap.parse data = .ok map) :
      Obtained (ofEmbedded map)

theorem Obtained.steady {reader : CodeReader} (h : Obtained reader) : reader.Steady := by
  cases h with
  | singleByte => exact steady_singleByte
  | twoByte => exact steady_twoByte
  | ofPredefined map =>
    cases map with
    | identity vertical => exact steady_twoByte
    | utf16 vertical => exact steady_utf16
    | legacy charset vertical => exact steady_legacy charset
  | @ofEmbedded data map read =>
    rw [CodeReader.ofEmbedded]
    split
    · exact steady_twoByte
    · exact steady_codespace (CidCMap.isProper_of_parse read)

def IsCode (reader : CodeReader) (s : Bytes) : Prop := reader.readCodes s = .ok [ofBytes s]

variable {reader : CodeReader}

theorem isCode_of_codeLength {first : UInt8} {s : Bytes}
    (length : reader.codeLength first s = s.length + 1) : reader.IsCode (first :: s) := by
  have read := @readFrom_append s reader first []
    (by rw [List.append_nil, length, List.length_cons]) 0
  rw [List.append_nil] at read
  rw [IsCode, readCodes, read, readFrom]
  rfl

theorem IsCode.ne_nil {s : Bytes} (h : reader.IsCode s) : s ≠ [] := by
  rintro rfl
  rw [IsCode, readCodes, readFrom] at h
  cases h

theorem Steady.codeLength_take (steady : reader.Steady) {first : UInt8} {rest : Bytes}
    (long : ¬ rest.length < reader.codeLength first rest - 1) :
    reader.codeLength first (rest.take (reader.codeLength first rest - 1)) =
      (rest.take (reader.codeLength first rest - 1)).length + 1 := by
  have pos := steady.pos first rest
  have taken : (rest.take (reader.codeLength first rest - 1)).length =
      reader.codeLength first rest - 1 := by
    rw [List.length_take]
    omega
  have cut := steady.cut first (rest.take (reader.codeLength first rest - 1))
    (rest.drop (reader.codeLength first rest - 1))
  rw [List.take_append_drop] at cut
  rw [cut (by omega), taken]
  omega

theorem readFrom_ok (steady : reader.Steady) (offset : Nat) (s : Bytes) :
    ∀ codes, reader.readFrom offset s = .ok codes → (codes.map CharCode.bytes).flatten = s ∧
      ∀ c ∈ codes, reader.IsCode c.bytes ∧ c = ofBytes c.bytes := by
  fun_induction reader.readFrom offset s with
  | case1 offset =>
    intro codes read
    cases read
    simp
  | case2 offset first rest length short =>
    intro codes read
    cases read
  | case3 offset first rest length long ih =>
    intro codes read
    obtain ⟨later, readLater, rfl⟩ := map_eq_ok read
    obtain ⟨joined, whole⟩ := ih later readLater
    constructor
    · rw [List.map_cons, List.flatten_cons, joined]
      exact congrArg (first :: ·) (List.take_append_drop (length - 1) rest)
    · have code := isCode_of_codeLength (steady.codeLength_take long)
      exact List.forall_mem_cons.2 ⟨⟨code, rfl⟩, whole⟩

/-- Behind complete codes stands a part of one more, which any bytes complete that make it long
enough. -/
structure BreaksOff (reader : CodeReader) (codes : List Bytes) (tail : Bytes) (length : Nat) :
    Prop where
  complete : ∀ s ∈ codes, reader.IsCode s
  read : ∀ offset, reader.readFrom offset codes.flatten = .ok (codes.map ofBytes)
  begun : tail ≠ []
  short : tail.length < length
  completed : ∀ more, (tail ++ more).length = length → reader.IsCode (tail ++ more)

theorem readFrom_error (steady : reader.Steady) (offset : Nat) (s : Bytes) :
    ∀ fault, reader.readFrom offset s = .error fault → ∃ codes tail length,
      reader.BreaksOff codes tail length ∧ s = codes.flatten ++ tail ∧
        fault = .truncatedCode length (offset + codes.flatten.length) := by
  fun_induction reader.readFrom offset s with
  | case1 offset =>
    intro fault read
    cases read
  | case2 offset first rest length short =>
    intro fault read
    cases read
    refine ⟨[], first :: rest, length, ?_, rfl, rfl⟩
    exact {
      complete := by simp
      read := fun offset => by rw [List.flatten_nil, readFrom]; rfl
      begun := List.cons_ne_nil first rest
      short := by rw [List.length_cons]; omega
      completed := fun more enough => by
        rw [List.cons_append, List.length_cons] at enough
        exact isCode_of_codeLength ((steady.completed first rest more enough).trans enough.symm) }
  | case3 offset first rest length long ih =>
    intro fault read
    obtain ⟨codes, tail, truncated, broken, split, rfl⟩ := ih fault (map_eq_error_iff.1 read)
    have joined : rest = rest.take (length - 1) ++ codes.flatten ++ tail := by
      rw [List.append_assoc, ← split, List.take_append_drop]
    have taken := steady.codeLength_take long
    have size : (first :: rest.take (length - 1)).length = length := by
      have pos : 0 < length := steady.pos first rest
      rw [List.length_cons, List.length_take]
      omega
    -- The bytes behind the codes that were read do not change how long the first one is.
    have told : reader.codeLength first (rest.take (length - 1) ++ codes.flatten) =
        (first :: rest.take (length - 1)).length := by
      have cut := steady.cut first (rest.take (length - 1) ++ codes.flatten) tail
      rw [← joined] at cut
      rw [size]
      apply cut
      rw [List.length_append]
      rw [List.length_cons] at size
      omega
    refine ⟨(first :: rest.take (length - 1)) :: codes, tail, truncated, ?_, ?_, ?_⟩
    · exact {
        broken with
        complete := List.forall_mem_cons.2 ⟨isCode_of_codeLength taken, broken.complete⟩
        read := fun offset => by
          rw [List.flatten_cons, readFrom_append told, broken.read]
          rfl }
    · rw [List.flatten_cons, List.append_assoc, List.cons_append, ← List.append_assoc, ← joined]
    · rw [List.flatten_cons, List.length_append, size, Nat.add_assoc]

theorem singleByte_readFrom (offset : Nat) (s : Bytes) :
    singleByte.readFrom offset s = .ok (s.map fun b => ofBytes [b]) := by
  induction s generalizing offset with
  | nil => rw [readFrom, List.map_nil]
  | cons first rest ih =>
    have read := @readFrom_append [] singleByte first rest rfl offset
    rw [List.singleton_append] at read
    rw [read, ih]
    rfl

theorem twoByte_readFrom_error_iff (offset : Nat) (s : Bytes) :
    (∃ fault, twoByte.readFrom offset s = .error fault) ↔ Odd s.length := by
  fun_induction twoByte.readFrom offset s with
  | case1 offset => simp
  | case2 offset first rest length short =>
    have two : length = 2 := rfl
    have nothing : rest = [] := List.eq_nil_of_length_eq_zero (by omega)
    simp [nothing]
  | case3 offset first rest length long ih =>
    have two : length = 2 := rfl
    rw [two, List.length_drop] at ih
    simp only [map_eq_error_iff]
    rw [two, ih, Nat.odd_iff, Nat.odd_iff, List.length_cons]
    omega

/-- However a font splits its strings, each code is one byte or more. The codes of a string are the
string, and a string that has no codes ends within one: behind complete codes stands a part of
another. -/
theorem readCodes_partition {reader : CodeReader} (h : Obtained reader) (s : Bytes) :
    (∀ first rest, 0 < reader.codeLength first rest) ∧
    (match reader.readCodes s with
      | .ok codes => (codes.map CharCode.bytes).flatten = s ∧ ∀ c ∈ codes,
          c.bytes ≠ [] ∧ reader.IsCode c.bytes ∧
            c.code = Nat.ofDigits 256 (c.bytes.reverse.map UInt8.toNat) % 2 ^ 32
      | .error fault => ∃ codes tail length, reader.BreaksOff codes tail length ∧
          s = codes.flatten ++ tail ∧ fault = .truncatedCode length codes.flatten.length) ∧
    (reader = singleByte → ∃ codes, reader.readCodes s = .ok codes) ∧
    (reader = twoByte → ((∃ fault, reader.readCodes s = .error fault) ↔ Odd s.length)) := by
  have steady := h.steady
  refine ⟨steady.pos, ?_, ?_, ?_⟩
  · cases read : reader.readCodes s with
    | ok codes =>
      obtain ⟨joined, whole⟩ := readFrom_ok steady 0 s codes read
      refine ⟨joined, fun c mem => ?_⟩
      obtain ⟨isCode, made⟩ := whole c mem
      refine ⟨isCode.ne_nil, isCode, ?_⟩
      rw [made, ofBytes, Bytes.bigEndian_eq_ofDigits]
      rfl
    | error fault =>
      simpa only [Nat.zero_add] using readFrom_error steady 0 s fault read
  · rintro rfl
    exact ⟨_, singleByte_readFrom 0 s⟩
  · rintro rfl
    exact twoByte_readFrom_error_iff 0 s

theorem readCodes_partition_utf16 :
    Obtained (.ofPredefined (.utf16 false)) ∧
      (ofPredefined (.utf16 false)).readCodes [0x00, 0x41, 0xD8, 0x3D, 0xDE] =
        .error (.truncatedCode 4 2) ∧
      ∃ codes tail length, (ofPredefined (.utf16 false)).BreaksOff codes tail length ∧
        [0x00, 0x41, 0xD8, 0x3D, 0xDE] = codes.flatten ++ tail ∧
        FontFault.truncatedCode 4 2 = .truncatedCode length codes.flatten.length := by
  have read : (ofPredefined (.utf16 false)).readCodes [0x00, 0x41, 0xD8, 0x3D, 0xDE] =
      .error (.truncatedCode 4 2) := by
    simp [readCodes, readFrom, ofPredefined, codeLength, Except.map]
  have split := (readCodes_partition (.ofPredefined (.utf16 false))
    [0x00, 0x41, 0xD8, 0x3D, 0xDE]).2.1
  rw [read] at split
  exact ⟨.ofPredefined (.utf16 false), read, split⟩

end CodeReader

end PdfContent
