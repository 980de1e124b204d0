import PdfContent.Document.Fonts
import PdfContent.Proofs.CMapNotation
import PdfContent.Proofs.WrittenSpaces

/-!
What the width array of a composite font means. An entry is a first CID with the widths of the CIDs
from there on, or two CIDs with one width for all between them; a range that is inverted or too wide
gives none. A CID has the width of the last entry that gives it one, and whatever stands behind an
entry is read as if it stood alone, whether the entry gave any width or not.
-/

namespace PdfContent.Document

open Numeral

def WidthEntry.at? : WidthEntry → Nat → Option Float
  | .listed first widths, cid =>
    if first ≤ cid ∧ cid ≤ greatest32 then (widths[cid - first]?).join else none
  | .range first span width, cid =>
    if first ≤ cid ∧ cid ≤ first + span ∧ cid ≤ greatest32 then some width else none

theorem getElem?_insertWidth (m : Std.TreeMap Nat Float) (width : Option Float) (at_ cid : Nat) :
    (insertWidth m (width, at_))[cid]? =
      (if at_ = cid then if cid ≤ greatest32 then width else none else none).or m[cid]? := by
  rw [← ite_and]
  unfold insertWidth
  cases width with
  | none => simp
  | some width =>
    by_cases small : at_ ≤ greatest32
    · have within : (at_ = cid ∧ cid ≤ greatest32) ↔ at_ = cid := by omega
      simp only [if_pos small, within, CMap.getElem?_insert_or]
    · have other : ¬ (at_ = cid ∧ cid ≤ greatest32) := by omega
      simp only [if_neg small, if_neg other, Option.none_or]

theorem getElem?_foldl_insertWidth (widths : List (Option Float)) (first : Nat)
    (m : Std.TreeMap Nat Float) (cid : Nat) :
    ((widths.zipIdx first).foldl insertWidth m)[cid]? =
      (if first ≤ cid ∧ cid ≤ greatest32 then (widths[cid - first]?).join else none).or
        m[cid]? := by
  rw [CMap.lookup_foldl_zipIdx getElem?_insertWidth widths first m cid]
  by_cases small : cid ≤ greatest32
  · simp only [small, if_true, and_true]
    rfl
  · simp [small]

theorem getElem?_applyWidths (m : Std.TreeMap Nat Float) (e : WidthEntry) (cid : Nat) :
    (applyWidths m e)[cid]? = (e.at? cid).or m[cid]? := by
  cases e with
  | listed first widths => exact getElem?_foldl_insertWidth widths first m cid
  | range first span width =>
    rw [applyWidths, getElem?_foldl_insertWidth, WidthEntry.at?]
    have reached : first ≤ cid → (cid - first < span + 1 ↔ cid ≤ first + span) := by omega
    rw [List.getElem?_replicate]
    grind

theorem getElem?_cidWidths (doc : Document) (items : List PdfObject) (cid : Nat) :
    (doc.cidWidths items)[cid]? =
      (doc.widthEntries items).reverse.findSome? fun e => e.at? cid := by
  have found := CMap.foldl_eq_findSome? getElem?_applyWidths (doc.widthEntries items) ∅ cid
  have empty : (∅ : Std.TreeMap Nat Float)[cid]? = none := Std.TreeMap.getElem?_emptyc
  rwa [empty, Option.or_none] at found

/-- An entry of a width array: widths of consecutive CIDs, or one width for all CIDs of a range. -/
inductive ListedWidths
  | each (first : Nat) (widths : List Float)
  | shared (first last : Nat) (width : Float)

namespace ListedWidths

def at? : ListedWidths → Nat → Option Float
  | each first widths, cid =>
    if first ≤ cid ∧ cid < 0x100000000 then widths[cid - first]? else none
  | shared first last width, cid =>
    if first ≤ cid ∧ cid ≤ last ∧ last - first ≤ 65535 then some width else none

def read? : ListedWidths → Option WidthEntry
  | each first widths => some (.listed first (widths.map some))
  | shared first last width => (CMap.span? first last).map fun span => .range first span width

end ListedWidths

def StandsNumber (doc : Document) (o : PdfObject) (x : Float) : Prop :=
  ∃ number, doc.Stands number o ∧ number.number? = some x

/-- The objects that write an entry, each of them as it stands or behind a reference. -/
inductive WritesWidths (doc : Document) : List PdfObject → ListedWidths → Prop
  | each {code array : PdfObject} {items : List PdfObject} {first : Nat} {widths : List Float}
      (small : first ≤ greatest32) (start : doc.Stands (.integer first) code)
      (held : doc.Stands (.array items) array)
      (numbers : List.Forall₂ doc.StandsNumber items widths) :
      WritesWidths doc [code, array] (.each first widths)
  | shared {low high number : PdfObject} {first last : Nat} {width : Float}
      (lowSmall : first ≤ greatest32) (start : doc.Stands (.integer first) low)
      (highSmall : last ≤ greatest32) (stop : doc.Stands (.integer last) high)
      (held : doc.StandsNumber number width) :
      WritesWidths doc [low, high, number] (.shared first last width)

variable {doc : Document}

theorem StandsNumber.number? {o : PdfObject} {x : Float} (h : doc.StandsNumber o x) :
    (doc.resolve o).number? = some x := by
  obtain ⟨number, stands, value⟩ := h
  rw [stands.resolve, value]

theorem toNat_toUInt32_of_small {n : Nat} (small : n ≤ greatest32) :
    (Float.ofInt n).toUInt32.toNat = n := by
  rw [Double.toNat_toUInt32_ofInt, Int.toNat_natCast, min_eq_left small]

theorem map_number? {items : List PdfObject} {widths : List Float}
    (h : List.Forall₂ doc.StandsNumber items widths) :
    (items.map fun o => (doc.resolve o).number?) = widths.map some := by
  induction h with
  | nil => rfl
  | cons first _ ih => rw [List.map_cons, List.map_cons, first.number?, ih]

theorem number?_integer (i : Int) : (PdfObject.integer i).number? = some (Float.ofInt i) := rfl

theorem WritesWidths.widthEntries_append {part : List PdfObject} {e : ListedWidths}
    (h : doc.WritesWidths part e) (rest : List PdfObject) :
    doc.widthEntries (part ++ rest) = e.read?.toList ++ doc.widthEntries rest := by
  cases h with
  | each small start held numbers =>
    simp only [List.cons_append, List.nil_append, widthEntries, start.resolve, held.resolve,
      number?_integer, toNat_toUInt32_of_small small, map_number? numbers, ListedWidths.read?,
      Option.toList_some]
  | shared lowSmall start highSmall stop held =>
    simp only [List.cons_append, List.nil_append, widthEntries, start.resolve, stop.resolve,
      number?_integer, toNat_toUInt32_of_small lowSmall, toNat_toUInt32_of_small highSmall,
      List.head?_cons, Option.map_some, Option.bind_some, held.number?, widthRange?,
      List.tail_cons, ListedWidths.read?]

theorem widthEntries_flatten_append {parts : List (List PdfObject)} {entries : List ListedWidths}
    (h : List.Forall₂ doc.WritesWidths parts entries) (rest : List PdfObject) :
    doc.widthEntries (parts.flatten ++ rest) =
      entries.filterMap ListedWidths.read? ++ doc.widthEntries rest := by
  induction h with
  | nil => rfl
  | @cons part e parts entries first _ ih =>
    rw [List.flatten_cons, List.append_assoc, first.widthEntries_append, ih, List.filterMap_cons]
    cases e.read? <;> rfl

theorem ListedWidths.bind_read? {part : List PdfObject} {e : ListedWidths}
    (h : doc.WritesWidths part e) (cid : Nat) :
    (e.read?.bind fun read => read.at? cid) = e.at? cid := by
  cases h with
  | @each _ _ _ first widths small start held numbers =>
    have bound : cid ≤ greatest32 ↔ cid < 0x100000000 := Nat.lt_succ_iff.symm
    have listed : ∀ k : Nat, ((widths.map some)[k]?).join = widths[k]? := by
      intro k
      rw [List.getElem?_map]
      cases widths[k]? <;> rfl
    simp only [read?, at?, WidthEntry.at?, Option.bind_some, bound, listed]
  | @shared _ _ _ first last width lowSmall start highSmall stop held =>
    have bound : ∀ span, cid ≤ first + span → first + span = last → cid ≤ greatest32 := by omega
    rw [read?, at?, CMap.span?_eq]
    grind [WidthEntry.at?]

theorem findSome?_read? {parts : List (List PdfObject)} {entries : List ListedWidths}
    (h : List.Forall₂ doc.WritesWidths parts entries) (cid : Nat) :
    (entries.filterMap ListedWidths.read?).reverse.findSome? (fun e => e.at? cid) =
      entries.reverse.findSome? fun e => e.at? cid := by
  induction h with
  | nil => rfl
  | @cons part e parts entries first _ ih =>
    have own := ListedWidths.bind_read? first cid
    rw [List.filterMap_cons, List.reverse_cons, List.findSome?_append, List.findSome?_singleton,
      ← ih, ← own]
    cases e.read? with
    | none => exact (Option.or_none).symm
    | some read =>
      rw [List.reverse_cons, List.findSome?_append, List.findSome?_singleton, Option.bind_some]

/-- A width array gives every CID what the last of its entries with that CID gives, and none other
any width. -/
theorem cidWidths_of_written {parts : List (List PdfObject)} {entries : List ListedWidths}
    (h : List.Forall₂ doc.WritesWidths parts entries) :
    (∀ cid, (doc.cidWidths parts.flatten)[cid]? =
      entries.reverse.findSome? fun e => e.at? cid) ∧
    ∀ rest cid, (doc.cidWidths (parts.flatten ++ rest))[cid]? =
      ((doc.cidWidths rest)[cid]?).or (entries.reverse.findSome? fun e => e.at? cid) := by
  have behind : ∀ rest cid, (doc.cidWidths (parts.flatten ++ rest))[cid]? =
      ((doc.cidWidths rest)[cid]?).or (entries.reverse.findSome? fun e => e.at? cid) := by
    intro rest cid
    rw [getElem?_cidWidths, widthEntries_flatten_append h, List.reverse_append,
      List.findSome?_append, findSome?_read? h, getElem?_cidWidths]
  refine ⟨fun cid => ?_, behind⟩
  have none : (doc.cidWidths [])[cid]? = none := by
    rw [getElem?_cidWidths, widthEntries.eq_def]
    rfl
  have alone := behind [] cid
  rwa [List.append_nil, none, Option.none_or] at alone

def widthDocument : Document where
  objects := [(⟨2, 0⟩, .array [.integer 500, .reference ⟨3, 0⟩]), (⟨3, 0⟩, .real 600.0),
    (⟨4, 0⟩, .integer 12)]

def hostileWidths : List (List PdfObject) :=
  [[.integer 4294967295, .reference ⟨2, 0⟩], [.integer 0, .integer 4294967295, .integer 500],
    [.integer 10, .reference ⟨4, 0⟩, .integer 700], [.integer 12, .array [.integer 650]]]

def hostileEntries : List ListedWidths :=
  [.each 4294967295 [Float.ofInt 500, 600.0], .shared 0 4294967295 (Float.ofInt 500),
    .shared 10 12 (Float.ofInt 700), .each 12 [Float.ofInt 650]]

theorem cidWidths_of_written_hostileWidths :
    List.Forall₂ widthDocument.WritesWidths hostileWidths hostileEntries ∧
      (widthDocument.cidWidths hostileWidths.flatten)[4294967295]? = some (Float.ofInt 500) ∧
      (widthDocument.cidWidths hostileWidths.flatten)[4294967296]? = none ∧
      (widthDocument.cidWidths hostileWidths.flatten)[0]? = none ∧
      (widthDocument.cidWidths hostileWidths.flatten)[11]? = some (Float.ofInt 700) ∧
      (widthDocument.cidWidths hostileWidths.flatten)[12]? = some (Float.ofInt 650) := by
  have integer : ∀ i, widthDocument.StandsNumber (.integer i) (Float.ofInt i) :=
    fun i => ⟨.integer i, .itself rfl, rfl⟩
  have behind : widthDocument.StandsNumber (.reference ⟨3, 0⟩) 600.0 :=
    ⟨.real 600.0, .reference rfl, rfl⟩
  have written : List.Forall₂ widthDocument.WritesWidths hostileWidths hostileEntries :=
    .cons (.each (by decide) (.itself rfl) (.reference rfl)
        (.cons (integer 500) (.cons behind .nil)))
      (.cons (.shared (by decide) (.itself rfl) (by decide) (.itself rfl) (integer 500))
        (.cons (.shared (by decide) (.itself rfl) (by decide) (.reference rfl) (integer 700))
          (.cons (.each (by decide) (.itself rfl) (.itself rfl) (.cons (integer 650) .nil)) .nil)))
  obtain ⟨found, -⟩ := cidWidths_of_written written
  exact ⟨written, found 4294967295, found 4294967296, found 0, found 11, found 12⟩

end PdfContent.Document
