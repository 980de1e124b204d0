import PdfContent.Proofs.OperatorNodes
import PdfContent.Proofs.RoundTrip
import PdfContent.Proofs.TextBytes
import PdfContent.Proofs.TextPieces
import PdfContent.Report

/-!
Rows of the operator table and the fields a reader finds in them. The labels in a row hold names of
the document as they are, so a row keeps its seven fields on one line just when none of the names it
shows has a tab or an end of line in it. The operator's own name has none, and the text of glyphs is
quoted.
-/

namespace PdfContent

open Text

namespace Text

variable {a b : String} {cs : List Char} {mark c : Char}

def endsField (c : Char) : Bool := c == '\t' || c == '\n' || c == '\r'

def FitsField (text : String) : Prop := ∀ c ∈ text.toList, endsField c = false

instance (text : String) : Decidable (FitsField text) :=
  List.decidableBAll (fun c => endsField c = false) text.toList

@[simp]
theorem fitsField_append : FitsField (a ++ b) ↔ FitsField a ∧ FitsField b := by
  rw [FitsField, String.toList_append, List.forall_mem_append, FitsField, FitsField]

theorem fitsField_iff_not_mem :
    FitsField a ↔ '\t' ∉ a.toList ∧ '\n' ∉ a.toList ∧ '\r' ∉ a.toList := by
  simp only [FitsField, endsField, Bool.or_eq_false_iff, beq_eq_false_iff_ne]
  constructor
  · intro h
    exact ⟨fun mem => (h _ mem).1.1 rfl, fun mem => (h _ mem).1.2 rfl, fun mem => (h _ mem).2 rfl⟩
  · rintro ⟨tab, line, feed⟩ c mem
    exact ⟨⟨fun e => tab (e ▸ mem), fun e => line (e ▸ mem)⟩, fun e => feed (e ▸ mem)⟩

theorem length_splitOn (mark : Char) (cs : List Char) :
    (cs.splitOn mark).length = cs.count mark + 1 := by
  induction cs with
  | nil => rfl
  | cons c cs ih =>
    rw [List.splitOn_cons_eq_if_modifyHead, List.count_cons]
    split_ifs
    · rw [List.length_cons, ih]
    · rw [List.length_modifyHead, ih]

theorem count_intercalate (mark c : Char) (columns : List (List Char)) :
    ([mark].intercalate columns).count c =
      columns.flatten.count c + if c == mark then columns.length - 1 else 0 := by
  induction columns with
  | nil => simp [List.intercalate]
  | cons column rest ih =>
    cases rest with
    | nil => simp [List.intercalate]
    | cons next rest =>
      rw [List.intercalate_cons_cons, List.count_append, List.count_append, ih,
        List.flatten_cons, List.count_append, List.count_singleton]
      by_cases h : c = mark
      · simp [h]
        omega
      · simp [h, Ne.symm h]

theorem fields_of_columns {columns : List String} (ne : columns ≠ []) :
    ('\n' ∉ ("\t".intercalate columns).toList ∧ '\r' ∉ ("\t".intercalate columns).toList ∧
      (("\t".intercalate columns).toList.splitOn '\t').length = columns.length) ↔
      ∀ column ∈ columns, FitsField column := by
  have spelled : ("\t".intercalate columns).toList =
      ['\t'].intercalate (columns.map String.toList) := String.toList_intercalate
  have nonempty : columns.length ≠ 0 := List.length_eq_zero_iff.not.2 ne
  have absent (c : Char) : (columns.map String.toList).flatten.count c = 0 ↔
      ∀ column ∈ columns, c ∉ column.toList := by
    rw [List.count_eq_zero, List.mem_flatten]
    simp only [not_exists, not_and, List.forall_mem_map]
  -- Each of the three says that a character is in no column: the tabs between the columns are as
  -- many as the length asks for.
  rw [spelled, length_splitOn, ← List.count_eq_zero, ← List.count_eq_zero]
  rw [count_intercalate, count_intercalate, count_intercalate, if_neg (by decide),
    if_neg (by decide), if_pos BEq.rfl, Nat.add_zero, Nat.add_zero, absent, absent, List.length_map]
  simp only [fitsField_iff_not_mem]
  constructor
  · rintro ⟨line, feed, length⟩ column mem
    exact ⟨(absent '\t').1 (by omega) column mem, line column mem, feed column mem⟩
  · intro fits
    have tab := (absent '\t').2 fun column mem => (fits column mem).1
    exact ⟨fun column mem => (fits column mem).2.1, fun column mem => (fits column mem).2.2,
      by omega⟩

theorem splitOn_columns {columns : List String} (ne : columns ≠ [])
    (fits : ∀ column ∈ columns, FitsField column) :
    ("\t".intercalate columns).toList.splitOn '\t' = columns.map String.toList := by
  rw [String.toList_intercalate]
  apply List.splitOn_intercalate '\t'
  · rw [List.forall_mem_map]
    exact fun column mem tab => absurd (fits column mem _ tab) (by decide)
  · exact List.map_eq_nil_iff.not.2 ne

theorem endsField_toDigits {base : Nat} (h : 1 < base) (le : base ≤ 16) (n : Nat) :
    ∀ c ∈ Nat.toDigits base n, endsField c = false := by
  have digit : ∀ d < 16, endsField (Nat.digitChar d) = false := by decide
  induction n using Nat.strongRecOn with
  | ind n ih =>
    by_cases small : n < base
    · rw [Nat.toDigits_of_lt_base small, List.forall_mem_singleton]
      exact digit n (small.trans_le le)
    · have pos : 0 < n := by omega
      rw [Nat.toDigits_of_base_le h (Nat.le_of_not_lt small), List.forall_mem_append,
        List.forall_mem_singleton]
      exact ⟨ih _ (Nat.div_lt_self pos h), digit _ ((Nat.mod_lt n (by omega)).trans_le le)⟩

@[simp]
theorem fitsField_toString : FitsField (toString a) ↔ FitsField a := Iff.rfl

@[simp]
theorem fitsField_repr (n : Nat) : FitsField n.repr := by
  rw [FitsField, Nat.toList_repr]
  exact endsField_toDigits (by decide) (by decide) n

theorem endsField_pair {c d : Char} (hc : endsField c = false) (hd : endsField d = false) :
    ∀ e ∈ [c, d], endsField e = false :=
  List.forall_mem_cons.2 ⟨hc, List.forall_mem_singleton.2 hd⟩

theorem endsField_escape {quote : Char} (h : endsField quote = false) (c : Char) :
    ∀ d ∈ Quoted.escape quote c, endsField d = false := by
  unfold Quoted.escape
  split_ifs with special line feed tab
  · apply endsField_pair rfl
    rcases Bool.or_eq_true_iff.1 special with same | same
    · rw [eq_of_beq same]
      exact h
    · rw [eq_of_beq same]
      rfl
  · exact endsField_pair rfl rfl
  · exact endsField_pair rfl rfl
  · exact endsField_pair rfl rfl
  · exact endsField_pair rfl rfl
  · rw [List.forall_mem_append, List.forall_mem_append, List.forall_mem_singleton]
    have opening : ∀ d ∈ ['\\', 'u', '\x7b'], endsField d = false :=
      List.forall_mem_cons.2 ⟨rfl, endsField_pair rfl rfl⟩
    exact ⟨⟨opening, endsField_toDigits (by decide) (by decide) _⟩, rfl⟩
  · rw [List.forall_mem_singleton, endsField]
    simp only [Bool.not_eq_true] at line feed tab
    rw [line, feed, tab]
    rfl

@[simp]
theorem fitsField_quoted (s : String) : FitsField (Quoted.string s) := by
  have quote : ∀ c ∈ ['"'], endsField c = false := List.forall_mem_singleton.2 rfl
  rw [FitsField, Quoted.string, String.toList_ofList, List.forall_mem_append,
    List.forall_mem_append, List.forall_mem_flatMap]
  exact ⟨⟨quote, fun c _ => endsField_escape rfl c⟩, quote⟩

end Text

namespace Text.Utf8

variable {lead : UInt8} {s : Bytes}

theorem endsField_ofNat {n : Nat} (h : 128 ≤ n) : endsField (Char.ofNat n) = false := by
  have low : ∀ c, endsField c = true → c.toNat < 128 ∧ c ≠ Char.ofNat 0 := by
    simp only [endsField, Bool.or_eq_true, beq_iff_eq]
    rintro c ((rfl | rfl) | rfl) <;> decide
  refine Bool.eq_false_iff.2 fun ends => ?_
  by_cases valid : n.isValidChar
  · have value : (Char.ofNat n).toNat = n := by
      rw [Char.ofNat, dif_pos valid]
      rfl
    have := (low _ ends).1
    omega
  · -- No character stands at such a number.
    refine (low _ ends).2 ?_
    rw [Char.ofNat, dif_neg valid]
    rfl

theorem endsField_decodeHead (h : endsField (Byte.toChar lead) = false) :
    endsField (decodeHead lead s).1 = false := by
  rcases decodeHead_char lead s with same | other | ⟨n, le, value⟩
  · rw [same, h]
  · rw [other]
    decide
  · rw [value, endsField_ofNat le]

theorem endsField_decode (h : ∀ b ∈ s, endsField (Byte.toChar b) = false) :
    ∀ c ∈ decode s, endsField c = false := by
  fun_induction decode s with
  | case1 => exact List.forall_mem_nil _
  | case2 b s head ih =>
    rw [List.forall_mem_cons] at h ⊢
    exact ⟨endsField_decodeHead h.1, ih fun b mem => h.2 b (List.mem_of_mem_drop mem)⟩

end Text.Utf8

theorem Byte.endsField_toChar : ∀ b, isRegular b = true → endsField (toChar b) = false :=
  forall_of_fin (by decide +kernel)

theorem Bytes.fitsField_toText {s : Bytes} (h : ∀ b ∈ s, Byte.isRegular b = true) :
    FitsField s.toText := by
  rw [FitsField, toText, String.toList_ofList]
  exact Utf8.endsField_decode fun b mem => Byte.endsField_toChar b (h b mem)

namespace Token

variable {b : UInt8} {s r data : Bytes} {ts tokens : List Token}

theorem fitsField_ofWord {word name : String} (fits : FitsField word)
    (mem : name ∈ operators [ofWord word]) : FitsField name := by
  unfold ofWord at mem
  split_ifs at mem
  · cases mem
  · cases mem
  · cases mem
  · rw [List.mem_singleton.1 mem]
    exact fits

theorem fitsField_of_readTokens (h : readTokens b s = .ok (ts, r)) :
    ∀ name ∈ operators ts, FitsField name := by
  have regular : ∀ c ∈ (Operand.spanRegular (b :: s)).1, Byte.isRegular c = true :=
    fun c => List.mem_takeWhile_imp
  revert h
  fun_cases readTokens b s
  case case4 =>
    intro h
    obtain ⟨image, -, same⟩ := map_eq_ok h
    rw [← (Prod.mk.inj same).1]
    have marks : ∀ name ∈ ["BI", "ID", "EI"], FitsField name := by decide
    exact marks
  case case5 =>
    intro h
    rw [← (Prod.mk.inj (Except.ok.inj h)).1]
    exact fun name => fitsField_ofWord (Bytes.fitsField_toText regular)
  case case6 =>
    intro h
    obtain ⟨value, -, same⟩ := map_eq_ok h
    rw [← (Prod.mk.inj same).1]
    exact List.forall_mem_nil _
  -- The others are strays.
  all_goals
    intro h
    rw [← (Prod.mk.inj (Except.ok.inj h)).1]
    exact List.forall_mem_nil _

theorem fitsField_of_ofBytes (h : ofBytes data = .ok tokens) :
    ∀ name ∈ operators tokens, FitsField name := by
  fun_induction ofBytes data generalizing tokens with
  | case1 =>
    obtain rfl := Except.ok.inj h
    exact List.forall_mem_nil _
  | case2 => cases h
  | case3 s b r skip ts rest read ih =>
    obtain ⟨later, others, rfl⟩ := map_eq_ok h
    rw [operators_append, List.forall_mem_append]
    exact ⟨fitsField_of_readTokens read, ih others⟩

end Token

def ColorSpace.shownName? (space : ColorSpace) (pattern : Option String) : Option String :=
  match space, pattern with
  | .pattern _, some name => some name
  | .separation colorant _, _ => some colorant
  | _, _ => none

def Paint.shownName? (p : Paint) : Option String :=
  p.colorSpace.shownName? (p.pattern.map Pattern.name)

theorem ColorSpace.fitsField_family (space : ColorSpace) : FitsField space.family := by
  unfold family
  split <;> decide

theorem ColorSpace.fitsField_label (space : ColorSpace) (pattern : Option String) :
    FitsField (space.label pattern) ↔ ∀ name ∈ space.shownName? pattern, FitsField name := by
  have opening : FitsField "Pattern(" ∧ FitsField "Separation(" ∧ FitsField "Indexed(" := by decide
  have closing : FitsField ")" := by decide
  fun_cases ColorSpace.label space pattern
  case case1 => simp [shownName?, opening, closing]
  case case2 => simp [shownName?, opening, closing]
  case case3 base _ family =>
    have fits : FitsField family := base.fitsField_family
    simp [shownName?, opening, closing, fits]
  case case4 plain _ shown =>
    have none : space.shownName? pattern = none := by
      unfold shownName?
      split
      · exact (shown _ _ rfl rfl).elim
      · exact (plain _ _ rfl).elim
      · rfl
    simp [none, space.fitsField_family]

theorem Paint.fitsField_label (p : Paint) :
    FitsField p.label ↔ ∀ name ∈ p.shownName?, FitsField name :=
  ColorSpace.fitsField_label ..

theorem Font.fitsField_label (f : Font) :
    FitsField f.label ↔ ∀ name ∈ f.baseFont, FitsField name := by
  have subtype : FitsField f.subtype := by
    unfold Font.subtype SimpleFontKind.text
    split
    · split <;> decide
    · decide
  have opening : FitsField " (" := by decide
  have closing : FitsField ")" := by decide
  have unknown : FitsField "?" := by decide
  cases name : f.baseFont <;> simp [Font.label, name, subtype, opening, closing, unknown]

theorem Glyph.fitsField_summary (glyphs : List Glyph) : FitsField (Glyph.summary glyphs) := by
  have count : FitsField "count=" := by decide
  have missing : FitsField " missing=" := by decide
  have inconsistent : FitsField " inconsistent=" := by decide
  have text : FitsField " text=" := by decide
  simp [Glyph.summary, count, missing, inconsistent, text]

namespace Node

/-- The names of the document that the row of an operator shows. -/
def shownNames (n : Node) : List String :=
  (n.state.toList.flatMap fun s => s.fill.shownName?.toList ++ s.stroke.shownName?.toList) ++
    (n.font?.bind Font.baseFont).toList

/-- The text is one line, with seven fields between its tabs and the operator in the third. -/
structure IsRow (n : Node) (text : String) : Prop where
  line : '\n' ∉ text.toList ∧ '\r' ∉ text.toList
  fields : (text.toList.splitOn '\t').length = 7
  operator : (text.toList.splitOn '\t')[2]? = some n.name.toList

theorem columns_fit_iff {n : Node} (named : FitsField n.name) (page index : Nat) :
    (∀ column ∈ n.columns page index, FitsField column) ↔
      ∀ name ∈ n.shownNames, FitsField name := by
  have empty : FitsField dash := by decide
  have glyphs : FitsField (n.glyphSummary?.getD dash) := by
    unfold glyphSummary?
    split_ifs
    · exact Glyph.fitsField_summary n.glyphs
    · exact empty
  have font : FitsField (n.fontLabel?.getD dash) ↔
      ∀ name ∈ n.font?.bind Font.baseFont, FitsField name := by
    cases h : n.font? <;> simp [fontLabel?, h, empty, Font.fitsField_label]
  have fill : FitsField (n.fillLabel?.getD dash) ↔
      ∀ s ∈ n.state, ∀ name ∈ s.fill.shownName?, FitsField name := by
    cases h : n.state <;> simp [fillLabel?, h, empty, Paint.fitsField_label]
  have stroke : FitsField (n.strokeLabel?.getD dash) ↔
      ∀ s ∈ n.state, ∀ name ∈ s.stroke.shownName?, FitsField name := by
    cases h : n.state <;> simp [strokeLabel?, h, empty, Paint.fitsField_label]
  simp only [columns, shownNames, List.forall_mem_append, List.forall_mem_cons,
    List.forall_mem_flatMap, Option.mem_toList, Nat.toString_eq_repr, fitsField_repr, named, fill,
    stroke, font, glyphs, List.not_mem_nil, false_imp_iff, implies_true, true_and, and_true,
    Option.mem_def, imp_and, forall_and, and_assoc]

theorem isRow_iff {n : Node} (named : FitsField n.name) (page index : Nat) :
    n.IsRow (n.row page index) ↔ ∀ name ∈ n.shownNames, FitsField name := by
  have some : n.columns page index ≠ [] := List.cons_ne_nil _ _
  rw [← columns_fit_iff named page index, ← fields_of_columns some]
  constructor
  · exact fun row => ⟨row.line.1, row.line.2, row.fields⟩
  · intro split
    have fields := splitOn_columns some ((fields_of_columns some).1 split)
    exact ⟨⟨split.1, split.2.1⟩, split.2.2, by rw [row, fields]; rfl⟩

end Node

namespace Model

variable {σ : Type}

theorem fitsField_name {data : Bytes} {tokens : List Token} (h : Token.ofBytes data = .ok tokens)
    (r : Resources σ) (collectsWarnings : Bool) (m : σ) :
    ∀ n ∈ (ofTokens r collectsWarnings tokens m).1.nodes, FitsField n.name := by
  have names := Reading.names_ofTokens r collectsWarnings m tokens
  intro n mem
  have named : n.name ∈ Token.operators tokens := names ▸ List.mem_map_of_mem mem
  exact Token.fitsField_of_ofBytes h _ named

/-- The row of an operator of a stream keeps its fields exactly when no name that it shows has a
tab or an end of line in it. -/
theorem isRow_iff_shownNames {data : Bytes} {tokens : List Token}
    (h : Token.ofBytes data = .ok tokens) (r : Resources σ) (collectsWarnings : Bool) (m : σ) :
    ∀ n ∈ (ofTokens r collectsWarnings tokens m).1.nodes, ∀ page index,
      n.IsRow (n.row page index) ↔ ∀ name ∈ n.shownNames, FitsField name :=
  fun n mem => Node.isRow_iff (fitsField_name h r collectsWarnings m n mem)

def tabbedTokens : List PlainToken :=
  [.operand (.name "Pattern"), .operator ⟨"cs", by decide +kernel, by decide +kernel, by decide⟩,
    .operand (.name "P\tQ"), .operator ⟨"scn", by decide +kernel, by decide +kernel, by decide⟩]

def tabbedStream : Bytes := Bytes.ofUtf8 " /Pattern cs /P#09Q scn"

def tabbedTable : ResourceTable where
  patterns := [("P\tQ", { name := "P\tQ", kind := .tiling 1 1 })]

theorem ofBytes_tabbedStream :
    Token.ofBytes tabbedStream = .ok (tabbedTokens.map PlainToken.toToken) := by
  have written : PlainToken.printRest false tabbedTokens = tabbedStream := by decide +kernel
  rw [← written, PlainToken.ofBytes_printRest]

theorem isRow_iff_shownNames_tabbedStream :
    ∃ tokens, Token.ofBytes tabbedStream = .ok tokens ∧
      ∃ a b, (ofTokens tabbedTable.resources true tokens ()).1.nodes = [a, b] ∧
        a.IsRow (a.row 1 0) ∧ ¬ b.IsRow (b.row 1 1) := by
  have keeps := isRow_iff_shownNames ofBytes_tabbedStream tabbedTable.resources true ()
  refine ⟨_, ofBytes_tabbedStream, _, _, rfl, ?_, ?_⟩
  · refine (keeps _ (List.mem_cons_self ..) 1 0).2 ?_
    intro name shown
    cases shown
  · rw [keeps _ (List.mem_cons_of_mem _ (List.mem_cons_self ..)) 1 1]
    have tab : ¬ FitsField "P\tQ" := by decide
    exact fun fits => tab (fits "P\tQ" (List.mem_cons_self ..))

theorem not_isRow_tabbedPattern :
    ∃ tokens n, Token.ofBytes tabbedStream = .ok tokens ∧
      (ofTokens tabbedTable.resources true tokens ()).1.nodes[1]? = some n ∧
      n.row 1 1 = "1\t1\tscn\tPattern(P\tQ)\tDeviceGray\t-\t-" ∧ ¬ n.IsRow (n.row 1 1) := by
  refine ⟨_, _, ofBytes_tabbedStream, rfl, rfl, fun row => ?_⟩
  have eight : ("1\t1\tscn\tPattern(P\tQ)\tDeviceGray\t-\t-".toList.splitOn '\t').length = 8 := by
    decide +kernel
  exact absurd (eight.symm.trans row.fields) (by decide)

end Model

end PdfContent
