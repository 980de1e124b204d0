import PdfContent.Proofs.CMapLayout
import PdfContent.Proofs.WrittenSpaces

/-!
Differences of a simple font's encoding. In the array an integer sets the position and each name
takes the position it finds and moves it on by one, so that a code has the last name at its
position, or the name that the base encoding has for it. That is how the array is read as long as
its integers have 32 bits. An integer that has not, such as a negative one, counts as zero, and the
names behind it rename the codes from zero on.
-/

namespace PdfContent

/-- A name of a differences array: the integer in front of it, and how many names stand between. -/
structure Difference where
  start : Int
  offset : Nat
  name : String
  deriving DecidableEq

namespace Difference

/-- The position of a name: its integer sets it, and each name in between moves it on. -/
def position (d : Difference) : Int := d.start + d.offset

def code (d : Difference) : Nat := Document.differenceStart d.start + d.offset

/-- The names among objects, behind an integer and so many names. Without an integer in front there
is no position; objects that are neither integers nor names do not count. -/
def listFrom : Option (Int × Nat) → List PdfObject → List Difference
  | _, [] => []
  | front, o :: rest =>
    match o, front with
    | .integer i, _ => listFrom (some (i, 0)) rest
    | .name n, some (i, k) => ⟨i, k, n.toText⟩ :: listFrom (some (i, k + 1)) rest
    | _, _ => listFrom front rest

def lastAt? (place : Difference → Int) (list : List Difference) (code : Nat) : Option String :=
  list.reverse.findSome? fun d => if place d = code then some d.name else none

/-- The integer has 32 bits, or neither the position nor what is read for it is in a byte. -/
def Suits (d : Difference) : Prop :=
  (0 ≤ d.start ∧ d.start < 0x100000000) ∨ (256 ≤ d.offset ∧ ¬ (0 ≤ d.position ∧ d.position < 256))

theorem code_eq (d : Difference) :
    d.code =
      if 0 ≤ d.start ∧ d.start < 0x100000000 then d.start.toNat + d.offset else d.offset := by
  by_cases held : 0 ≤ d.start ∧ d.start < 0x100000000
  · have small : d.start = d.start.toNat ∧ d.start.toNat ≤ Numeral.greatest32 := by
      simp only [Numeral.greatest32]
      omega
    rw [if_pos held, code, Document.differenceStart, Double.unsigned32?_eq_some_iff.2 small,
      Option.getD_some]
  · have none : Numeral.unsigned32? d.start = none := by
      rw [Option.eq_none_iff_forall_ne_some]
      intro n read
      obtain ⟨same, small⟩ := Double.unsigned32?_eq_some_iff.1 read
      simp only [Numeral.greatest32] at small
      omega
    rw [if_neg held, code, Document.differenceStart, none, Option.getD_none, Nat.zero_add]

theorem suits_iff (d : Difference) :
    d.Suits ↔ ∀ code : Nat, code < 256 → ((d.code : Int) = code ↔ d.position = code) := by
  unfold Suits
  rw [code_eq]
  unfold position
  constructor
  · intro suits code byte
    split <;> omega
  · intro same
    by_contra astray
    -- Such a name is read for its offset, where its position is not.
    have held : ¬ (0 ≤ d.start ∧ d.start < 0x100000000) := fun held => astray (.inl held)
    simp only [if_neg held] at same
    by_cases near : d.offset < 256
    · have zero := (same d.offset near).1 rfl
      omega
    · have byte : 0 ≤ d.start + d.offset ∧ d.start + d.offset < 256 := by omega
      have far := (same (d.start + d.offset).toNat (by omega)).2 (by omega)
      omega

theorem lastAt?_concat (place : Difference → Int) (list : List Difference) (d : Difference)
    (code : Nat) : lastAt? place (list ++ [d]) code =
      (if place d = code then some d.name else none).or (lastAt? place list code) := by
  rw [lastAt?, List.reverse_concat, List.findSome?_cons]
  by_cases here : place d = code
  · rw [if_pos here, Option.some_or]
  · rw [if_neg here, Option.none_or, lastAt?]

theorem lastAt?_of_suits {list : List Difference} (suits : ∀ d ∈ list, d.Suits) {code : Nat}
    (byte : code < 256) :
    lastAt? (fun d => d.code) list code = lastAt? position list code := by
  induction list using List.reverseRecOn with
  | nil => rfl
  | append_singleton list d ih =>
    rw [List.forall_mem_append, List.forall_mem_singleton] at suits
    have same := (suits_iff d).1 suits.2 code byte
    rw [lastAt?_concat, lastAt?_concat, ih suits.1]
    simp only [same]

end Difference

namespace SimpleEncoding

def difference? (e : SimpleEncoding) (code : Nat) : Option String := e.differences[code]?

theorem difference?_rename (e : SimpleEncoding) (at_ : Nat) (name : String) (code : Nat) :
    (e.rename at_ name).difference? code =
      (if at_ = code ∧ code < 256 then some name else none).or (e.difference? code) := by
  unfold rename difference?
  by_cases byte : at_ < 256
  · have within : (at_ = code ∧ code < 256) ↔ at_ = code := by omega
    simp only [if_pos byte, within, CMap.getElem?_insert_or]
  · have other : ¬ (at_ = code ∧ code < 256) := by omega
    rw [if_neg byte, if_neg other, Option.none_or]

theorem base_rename (e : SimpleEncoding) (code : Nat) (name : String) :
    (e.rename code name).base = e.base := by
  unfold rename
  split <;> rfl

def entries (runs : List DifferenceRun) : List (String × Nat) :=
  runs.flatMap fun run => run.names.zipIdx run.start

theorem applyRuns_eq_foldl (e : SimpleEncoding) (runs : List DifferenceRun) :
    e.applyRuns runs = (entries runs).foldl (fun e entry => e.rename entry.2 entry.1) e := by
  rw [entries, List.foldl_flatMap]
  rfl

theorem base_applyRuns (e : SimpleEncoding) (runs : List DifferenceRun) :
    (e.applyRuns runs).base = e.base := by
  rw [applyRuns_eq_foldl]
  induction entries runs generalizing e with
  | nil => rfl
  | cons entry rest ih => rw [List.foldl_cons, ih, base_rename]

theorem difference?_applyRuns (e : SimpleEncoding) (runs : List DifferenceRun) (code : Nat) :
    (e.applyRuns runs).difference? code =
      ((entries runs).reverse.findSome? fun entry =>
        if entry.2 = code ∧ code < 256 then some entry.1 else none).or (e.difference? code) := by
  have step : ∀ (e : SimpleEncoding) (entry : String × Nat) (code : Nat),
      (e.rename entry.2 entry.1).difference? code =
        (if entry.2 = code ∧ code < 256 then some entry.1 else none).or (e.difference? code) :=
    fun e entry code => difference?_rename e entry.2 entry.1 code
  rw [applyRuns_eq_foldl]
  exact CMap.foldl_eq_findSome? step (entries runs) e code

end SimpleEncoding

namespace Document

open Difference

def entriesSoFar (runs : List DifferenceRun) : List (String × Nat) :=
  SimpleEncoding.entries (runs.map fun run => { run with names := run.names.reverse }).reverse

def Follows : List DifferenceRun → Option (Int × Nat) → Prop
  | [], none => True
  | run :: _, some (i, k) => run.start = differenceStart i ∧ run.names.length = k
  | _, _ => False

theorem entriesSoFar_cons (run : DifferenceRun) (runs : List DifferenceRun) :
    entriesSoFar (run :: runs) = entriesSoFar runs ++ run.names.reverse.zipIdx run.start := by
  rw [entriesSoFar, List.map_cons, List.reverse_cons, SimpleEncoding.entries, List.flatMap_append,
    List.flatMap_singleton]
  rfl

theorem entriesSoFar_foldl (objects : List PdfObject) {runs : List DifferenceRun}
    {front : Option (Int × Nat)} (h : Follows runs front) :
    entriesSoFar (objects.foldl differenceStep runs) =
      entriesSoFar runs ++ (listFrom front objects).map fun d => (d.name, d.code) := by
  -- `Follows` ties the newest run to the integer and the names that are behind the fold.
  induction objects generalizing runs front with
  | nil => exact (List.append_nil _).symm
  | cons o objects ih =>
    rw [List.foldl_cons]
    cases o with
    | integer i =>
      have empty : (DifferenceRun.mk (differenceStart i) []).names.reverse.zipIdx
          (differenceStart i) = [] := rfl
      have next : Follows (⟨differenceStart i, []⟩ :: runs) (some (i, 0)) := ⟨rfl, rfl⟩
      rw [differenceStep, ih next, entriesSoFar_cons, empty, List.append_nil, listFrom]
    | name n =>
      match runs, front, h with
      | [], none, h => exact ih h
      | run :: runs, some (i, k), ⟨start, count⟩ =>
        have next : Follows ({ run with names := n.toText :: run.names } :: runs)
            (some (i, k + 1)) := ⟨start, congrArg Nat.succ count⟩
        have code : (Difference.mk i k n.toText).code = run.start + run.names.length := by
          rw [Difference.code, start, count]
        rw [differenceStep, ih next, listFrom, List.map_cons, code, entriesSoFar_cons,
          entriesSoFar_cons, List.reverse_cons, List.zipIdx_append, List.length_reverse]
        simp
    | _ => exact ih h

theorem entries_differenceRuns (doc : Document) (items : List PdfObject) :
    SimpleEncoding.entries (doc.differenceRuns items) =
      (listFrom none (items.map doc.resolve)).map fun d => (d.name, d.code) := by
  have start : Follows [] none := trivial
  exact entriesSoFar_foldl (items.map doc.resolve) start

theorem difference?_applyRuns_differenceRuns (doc : Document) (base : Option BaseEncoding)
    (items : List PdfObject) {code : Nat} (byte : code < 256) :
    (SimpleEncoding.applyRuns { base } (doc.differenceRuns items)).difference? code =
      lastAt? (fun d => d.code) (listFrom none (items.map doc.resolve)) code := by
  have none : ({ base } : SimpleEncoding).difference? code = none := Std.TreeMap.getElem?_emptyc
  rw [SimpleEncoding.difference?_applyRuns, none, Option.or_none, entries_differenceRuns,
    ← List.map_reverse, List.findSome?_map, lastAt?]
  simp only [byte, and_true, Nat.cast_inj]
  rfl

end Document

def Font.encoding? (f : Font) : Option SimpleEncoding :=
  match f.body with
  | .simple _ encoding _ => encoding
  | .composite .. => none

theorem Font.glyphName?_eq (f : Font) (code : Nat) :
    f.glyphName? code = f.encoding?.bind fun e => e.glyphName? code := by
  unfold Font.glyphName? Font.encoding?
  cases f.body <;> rfl

namespace Document

open Difference

variable {doc : Document} {font d : Dictionary} {kind : SimpleFontKind}
  {descriptor : FontDescriptor}

def baseIn (kind : SimpleFontKind) (descriptor : FontDescriptor) (named : Option BaseEncoding) :
    Option BaseEncoding :=
  if kind != .type3 && !descriptor.isSymbolic then named.or (some .standard) else named

/-- The map to Unicode of a font comes down, and reading the font with it. -/
def ComesDown (doc : Document) (font : Dictionary) : Prop :=
  ∃ cause, doc.toUnicode? font = .error (.font (.crash cause)) ∧
    doc.readFont font = .error (.font (.crash cause))

theorem toUnicode?_cases (doc : Document) (font : Dictionary) :
    (∃ map, doc.toUnicode? font = .ok map) ∨
      ∃ cause, doc.toUnicode? font = .error (.font (.crash cause)) := by
  unfold toUnicode?
  split
  · split
    · exact .inl ⟨none, rfl⟩
    · split
      · exact .inl ⟨_, rfl⟩
      · exact .inr ⟨_, rfl⟩
      · exact .inl ⟨none, rfl⟩
  · exact .inl ⟨none, rfl⟩

theorem readFont_of_simple
    (subtype : (doc.name? font "Subtype").bind SimpleFontKind.ofName? = some kind)
    (described : doc.descriptorOf (doc.dictionary? font "FontDescriptor") = .ok descriptor) :
    doc.ComesDown font ∨ ∃ f, doc.readFont font = .ok f ∧ f.encoding? =
      if kind != .type3 && !descriptor.isSymbolic then
        some (withStandardBase (doc.encoding? font))
      else doc.encoding? font := by
  obtain ⟨name, named, isKind⟩ := Option.bind_eq_some_iff.1 subtype
  have simple : (name == "Type0") = false := by
    by_contra composite
    obtain rfl : name = "Type0" := by simpa using composite
    cases isKind
  have body : doc.readFontBody font = (doc.readSimple font kind).mapError .document := by
    simp only [readFontBody, named, simple, isKind]
    rfl
  rcases doc.toUnicode?_cases font with ⟨map, whole⟩ | ⟨cause, down⟩
  · rw [readFont, body, readSimple, whole]
    simp only [described]
    exact .inr ⟨_, rfl, rfl⟩
  · refine .inl ⟨cause, down, ?_⟩
    rw [readFont, body, readSimple, down]
    simp only [described]
    rfl

theorem encoding?_of_differences {items : List PdfObject}
    (held : doc.get? font "Encoding" = some (.dictionary d))
    (array : doc.array? d "Differences" = some items) :
    doc.encoding? font = some (SimpleEncoding.applyRuns
      { base := (doc.name? d "BaseEncoding").bind BaseEncoding.ofName? }
      (doc.differenceRuns items)) := by
  rw [encoding?, held]
  dsimp only
  rw [array, Option.getD_some]

theorem readFont_encoding {items : List PdfObject}
    (subtype : (doc.name? font "Subtype").bind SimpleFontKind.ofName? = some kind)
    (described : doc.descriptorOf (doc.dictionary? font "FontDescriptor") = .ok descriptor)
    (held : doc.get? font "Encoding" = some (.dictionary d))
    (array : doc.array? d "Differences" = some items) :
    doc.ComesDown font ∨ ∃ f e, doc.readFont font = .ok f ∧ f.encoding? = some e ∧
      e.base = baseIn kind descriptor ((doc.name? d "BaseEncoding").bind BaseEncoding.ofName?) ∧
      ∀ code < 256, e.difference? code =
        lastAt? (fun d => d.code) (listFrom none (items.map doc.resolve)) code := by
  refine (readFont_of_simple subtype described).imp_right fun ⟨f, loaded, encoding⟩ => ?_
  rw [encoding?_of_differences held array] at encoding
  generalize (doc.name? d "BaseEncoding").bind BaseEncoding.ofName? = named at encoding ⊢
  have base := SimpleEncoding.base_applyRuns { base := named } (doc.differenceRuns items)
  have differences := fun code (byte : code < 256) =>
    difference?_applyRuns_differenceRuns doc named items byte
  unfold baseIn
  split at encoding
  · next standard =>
    refine ⟨f, _, loaded, encoding, ?_, differences⟩
    rw [if_pos standard, withStandardBase, Option.getD_some, base]
  · next own => exact ⟨f, _, loaded, encoding, by rw [if_neg own, base], differences⟩

/-- A simple font loads unless its map to Unicode comes down. A code of the loaded font has the last
name of the array that is read for it, and else the name of the base encoding. A name is read for
its position just where it suits, and where all names suit their positions decide. -/
theorem readFont_differences {items : List PdfObject}
    (subtype : (doc.name? font "Subtype").bind SimpleFontKind.ofName? = some kind)
    (described : doc.descriptorOf (doc.dictionary? font "FontDescriptor") = .ok descriptor)
    (held : doc.get? font "Encoding" = some (.dictionary d))
    (array : doc.array? d "Differences" = some items) :
    let base := baseIn kind descriptor ((doc.name? d "BaseEncoding").bind BaseEncoding.ofName?)
    let list := listFrom none (items.map doc.resolve)
    doc.ComesDown font ∨ ∃ f, doc.readFont font = .ok f ∧
      (∀ code, f.glyphName? code =
        if code < 256 then
          (lastAt? (fun d => d.code) list code).or (base.bind fun b => b.glyphName? code)
        else none) ∧
      (∀ d ∈ list, d.Suits ↔
        ∀ code : Nat, code < 256 → ((d.code : Int) = code ↔ d.position = code)) ∧
      ((∀ d ∈ list, d.Suits) → ∀ code < 256, f.glyphName? code =
        (lastAt? position list code).or (base.bind fun b => b.glyphName? code)) := by
  intro base list
  refine (readFont_encoding subtype described held array).imp_right
    fun ⟨f, e, loaded, encoding, ownBase, differences⟩ => ?_
  have general : ∀ code, f.glyphName? code =
      if code < 256 then
        (lastAt? (fun d => d.code) list code).or (base.bind fun b => b.glyphName? code)
      else none := by
    intro code
    rw [Font.glyphName?_eq, encoding, Option.bind_some, SimpleEncoding.glyphName?]
    split
    · next byte => rw [← differences code byte, SimpleEncoding.difference?, ownBase]
    · rfl
  refine ⟨f, loaded, general, fun d _ => d.suits_iff, fun suits code byte => ?_⟩
  rw [general, if_pos byte, lastAt?_of_suits suits byte]

def renamingDocument (items : List PdfObject) : Document where
  objects := [(⟨1, 0⟩, .array items), (⟨2, 0⟩, .integer 65), (⟨3, 0⟩, .name (Bytes.ofUtf8 "beta"))]

def renamingEncoding : Dictionary :=
  [(Bytes.ofUtf8 "BaseEncoding", nameObject "WinAnsiEncoding"),
    (Bytes.ofUtf8 "Differences", .reference ⟨1, 0⟩)]

def renamedFont : Dictionary :=
  [(Bytes.ofUtf8 "Subtype", nameObject "Type1"),
    (Bytes.ofUtf8 "Encoding", .dictionary renamingEncoding)]

def renamingItems : List PdfObject :=
  [nameObject "lost", .integer 66, nameObject "alpha", .null, .reference ⟨2, 0⟩, .reference ⟨3, 0⟩,
    nameObject "gamma", .integer 300, nameObject "ignored"]

theorem readFont_differences_renamed :
    ∃ f, (renamingDocument renamingItems).readFont renamedFont = .ok f ∧
      f.glyphName? 64 = some "at" ∧ f.glyphName? 65 = some "beta" ∧
      f.glyphName? 66 = some "gamma" ∧ f.glyphName? 67 = some "C" := by
  let doc := renamingDocument renamingItems
  have subtype : (doc.name? renamedFont "Subtype").bind SimpleFontKind.ofName? = some .type1 := by
    decide +kernel
  have base : baseIn .type1 {} ((doc.name? renamingEncoding "BaseEncoding").bind
      BaseEncoding.ofName?) = some .winAnsi := by decide +kernel
  have list : listFrom none (renamingItems.map doc.resolve) =
      [⟨66, 0, "alpha"⟩, ⟨65, 0, "beta"⟩, ⟨65, 1, "gamma"⟩, ⟨300, 0, "ignored"⟩] := by
    decide +kernel
  have whole : ¬ doc.ComesDown renamedFont := by
    rintro ⟨cause, down, -⟩
    cases down
  obtain ⟨f, loaded, -, -, suited⟩ :=
    (readFont_differences subtype rfl rfl rfl).resolve_left whole
  rw [list, base] at suited
  have found := suited (by simp [Difference.Suits])
  refine ⟨f, loaded, ?_, ?_, ?_, ?_⟩
  · rw [found 64 (by decide)]; decide +kernel
  · rw [found 65 (by decide)]; decide +kernel
  · rw [found 66 (by decide)]; decide +kernel
  · rw [found 67 (by decide)]; decide +kernel

theorem readFont_differences_negative :
    let doc := renamingDocument [.integer (-1), nameObject "alpha", nameObject "beta"]
    let list := listFrom none [.integer (-1), nameObject "alpha", nameObject "beta"]
    ((doc.readFont renamedFont).toOption.map fun f => (f.glyphName? 0, f.glyphName? 1)) =
        some (some "alpha", some "beta") ∧
      doc.array? renamingEncoding "Differences" =
        some [.integer (-1), nameObject "alpha", nameObject "beta"] ∧
      lastAt? position list 0 = some "beta" ∧ lastAt? position list 1 = none ∧
      BaseEncoding.winAnsi.glyphName? 1 = none := by
  exact ⟨by decide +kernel, rfl, by decide +kernel, by decide +kernel, by decide +kernel⟩

end Document

end PdfContent
