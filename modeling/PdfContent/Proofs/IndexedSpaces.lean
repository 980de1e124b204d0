import PdfContent.Proofs.DeviceSpaces
import PdfContent.Proofs.IntegerDoubles
import PdfContent.Proofs.WrittenSpaces

/-!
Indexed spaces over device spaces, in inline images and in documents. Both take the number behind
the base as the greatest index. A document cuts a fraction off and holds what is left between 0 and
255. An inline image takes a whole number of 32 bits as it is, and zero for every other number. So
the two give the same space for whole numbers up to 255 and for what is less than one.
-/

namespace PdfContent

variable {σ : Type}

/-- A number that a content stream and a document can both hold. The reals of a document have single
precision, and each of them is a double as well. -/
inductive WrittenNumber
  | integer (value : Int)
  | real (value : Float)

namespace WrittenNumber

def operand : WrittenNumber → Operand
  | integer i => .integer i
  | real x => .real x

def object : WrittenNumber → PdfObject
  | integer i => .integer i
  | real x => .real x

def value? : WrittenNumber → Option ℚ
  | integer i => some i
  | real x => Double.value? x

def isTop : WrittenNumber → Bool
  | integer _ => false
  | real x => Double.isTop x

/-- Whether a number gives the same greatest index in an inline image and in a document. What is no
number gives zero in both, and so does minus infinity. -/
def Suits (h : WrittenNumber) : Prop :=
  h.isTop = false ∧ ∀ q, h.value? = some q → q < 1 ∨ (q.den = 1 ∧ q ≤ 255)

theorem value?_of_isTop {h : WrittenNumber} (top : h.isTop = true) : h.value? = none := by
  cases h with
  | integer i => cases top
  | real x =>
    change Double.isTop x = true at top
    change Double.value? x = none
    unfold Double.isTop at top
    unfold Double.value?
    split at top
    · next unpacked => rw [unpacked]
    · cases top

theorem integer?_operand {h : WrittenNumber} {n : ℕ} :
    h.operand.integer?.bind Numeral.unsigned32? = some n ↔
      h.value? = some (n : ℚ) ∧ n ≤ Numeral.greatest32 := by
  cases h with
  | integer i =>
    change Numeral.unsigned32? i = some n ↔ some (i : ℚ) = some (n : ℚ) ∧ _
    rw [Double.unsigned32?_eq_some_iff, Option.some_inj]
    norm_cast
  | real x => exact Double.unsigned32?_wholeNumber?_eq_some_iff

theorem toNat_number?_object (h : WrittenNumber) : ∃ x, h.object.number? = some x ∧
    x.toUInt32.toNat = if h.isTop then Numeral.greatest32
      else min ⌊h.value?.getD 0⌋₊ Numeral.greatest32 := by
  cases h with
  | integer i =>
    refine ⟨_, rfl, (Double.toNat_toUInt32_ofInt i).trans ?_⟩
    simp only [isTop, value?, Bool.false_eq_true, if_false, Option.getD_some]
    rw [← Int.floor_toNat, Int.floor_intCast]
  | real x => exact ⟨x, rfl, Double.toNat_toUInt32 x⟩

theorem highestIndex_operand_of_whole {h : WrittenNumber} {n : ℕ} (whole : h.value? = some (n : ℚ))
    (small : n ≤ Numeral.greatest32) : Interpreter.highestIndex (some h.operand) = n := by
  unfold Interpreter.highestIndex
  rw [Option.bind_some, integer?_operand.2 ⟨whole, small⟩, Option.getD_some]

theorem highestIndex_operand_eq_zero {h : WrittenNumber}
    (other : ∀ n : ℕ, n ≤ Numeral.greatest32 → h.value? ≠ some (n : ℚ)) :
    Interpreter.highestIndex (some h.operand) = 0 := by
  unfold Interpreter.highestIndex
  rw [Option.bind_some]
  cases read : h.operand.integer?.bind Numeral.unsigned32? with
  | none => rfl
  | some n =>
    obtain ⟨whole, small⟩ := integer?_operand.1 read
    exact absurd whole (other n small)

theorem highestIndex_object (h : WrittenNumber) : Document.highestIndex h.object =
    if h.isTop then 255 else min 255 ⌊h.value?.getD 0⌋₊ := by
  obtain ⟨x, number, converted⟩ := h.toNat_number?_object
  unfold Document.highestIndex
  simp only [number, converted, Numeral.greatest32]
  split <;> omega

theorem lt_one_of_not_whole {q : ℚ} (other : ∀ n : ℕ, n ≤ Numeral.greatest32 → q ≠ n)
    (integer : q.den = 1) (small : q ≤ 255) : q < 1 := by
  obtain ⟨i, rfl⟩ : ∃ i : ℤ, q = i := ⟨q.num, (Rat.den_eq_one_iff q).1 integer |>.symm⟩
  norm_cast at small ⊢
  by_contra positive
  refine other i.toNat ?_ ?_
  · simp only [Numeral.greatest32]
    omega
  · norm_cast
    omega

theorem highestIndex_eq_iff (h : WrittenNumber) :
    Interpreter.highestIndex (some h.operand) = Document.highestIndex h.object ↔ h.Suits := by
  rw [highestIndex_object]
  unfold Suits
  cases value : h.value? with
  | none =>
    have zero : Interpreter.highestIndex (some h.operand) = 0 :=
      highestIndex_operand_eq_zero (by simp [value])
    cases h.isTop <;> simp [zero]
  | some q =>
    have finite : h.isTop = false := by
      by_contra top
      rw [value?_of_isTop (Bool.eq_true_of_not_eq_false top)] at value
      cases value
    simp only [finite, Bool.false_eq_true, if_false, Option.getD_some, true_and, Option.some_inj,
      forall_eq']
    by_cases whole : ∃ n : ℕ, n ≤ Numeral.greatest32 ∧ q = n
    · obtain ⟨n, small, rfl⟩ := whole
      rw [highestIndex_operand_of_whole value small, Nat.floor_natCast]
      simp only [Rat.den_natCast, true_and]
      norm_cast
      omega
    · push Not at whole
      have zero : Interpreter.highestIndex (some h.operand) = 0 :=
        highestIndex_operand_eq_zero (by simpa [value] using whole)
      have cut : ⌊q⌋₊ = 0 ↔ q < 1 := Nat.floor_eq_zero
      rw [zero, or_iff_left_of_imp fun wrong => lt_one_of_not_whole whole wrong.1 wrong.2, ← cut]
      omega

end WrittenNumber

/-- An indexed array of an inline image over a device family, under either of their names. -/
inductive Operand.IndexedOver (family : DeviceFamily) (h : WrittenNumber) : Operand → Prop
  | array {key base : String} (rest : List Operand) (known : key ∈ ["I", "Indexed"])
      (own : base ∈ [family.fullName, family.shortName]) :
      IndexedOver family h (.array (.name key :: .name base :: h.operand :: rest))

namespace Document

/-- The same array in a document, where each item may be behind a reference. -/
inductive IndexedOver (doc : Document) (family : DeviceFamily) (h : WrittenNumber) :
    PdfObject → Prop
  | array {o under count : PdfObject} {rest : List PdfObject} {key base : String}
      (held : doc.FamilyArray key (under :: count :: rest) o) (known : key ∈ ["I", "Indexed"])
      (named : doc.Stands (nameObject base) under)
      (own : base ∈ [family.fullName, family.shortName])
      (number : doc.Stands h.object count) : IndexedOver doc family h o

theorem IndexedOver.loads {doc : Document} {family : DeviceFamily} {h : WrittenNumber}
    {o : PdfObject} (written : doc.IndexedOver family h o) (levels : Nat) :
    Loads (doc.readColorSpace (levels + 2) o)
      (.indexed family.colorSpace (highestIndex h.object)) := by
  cases written with | @array under count rest key text held known named own number
  obtain ⟨first, array, name⟩ := held.resolve
  have base : Loads (doc.readColorSpace (levels + 1) (doc.resolve under)) family.colorSpace := by
    rw [readColorSpace_resolve, readColorSpace, named.resolve]
    refine .orFail ?_ _
    rw [Bytes.toText_ofUtf8]
    exact DeviceFamily.ofFamilyName?_of_mem own
  rw [readColorSpace, array]
  refine .bind (.orFail name _) ?_
  rw [List.mem_pair] at known
  obtain rfl | rfl := known
  all_goals
    simp +decide only [if_true, if_false]
    refine .bind (.item rfl _) (.bind base (.bind (.item rfl _) ?_))
    rw [number.resolve]
    exact .pure _

theorem colorSpace_of_loads {doc : Document} {scope : Scope} {resources entries : Dictionary}
    {name : String} {o : PdfObject} {space : ColorSpace}
    (current : scope.resources = some resources)
    (spaces : doc.dictionary? resources "ColorSpace" = some entries)
    (found : entries.entry? name = some o) (loads : Loads (doc.loadColorSpace o) space)
    (options : Options) (history : List Call) {m : Memory}
    (session : m.session = doc.after history { options }) :
    (scope.colorSpace doc name m).1 = .ok (some space) := by
  have entry : scope.entry? doc "ColorSpace" name = some (o.reference?, doc.resolve o) := by
    simp only [Scope.entry?, current, spaces, found, Option.bind_eq_bind, Option.bind_some,
      Option.pure_def]
  have fresh : doc.SpacesRead { options } := fun id kept h => by cases h
  have kept : doc.SpacesRead m.session :=
    session ▸ doc.lasting_spacesRead.after history fresh
  have same : ∀ number, o.reference? = some number → doc.resolve (.reference number) =
      doc.resolve o := fun number hn => by rw [eq_of_reference? hn]
  have resolved : Loads (doc.loadColorSpace (doc.resolve o)) space := by
    unfold loadColorSpace
    rw [readColorSpace_resolve]
    exact loads
  unfold Scope.colorSpace
  rw [entry]
  exact congrArg (Except.map some) (kept.loadKeptSpace resolved same)

end Document

namespace Model

open Document

/-- An inline image and a resource with the same indexed array over a device family, for which
nothing is declared, both have an indexed space over that family. That of the resource never goes
beyond 255, and the two are the same space just where the number suits. -/
theorem ofTokens_indexedSpace (r : Resources σ) (collectsWarnings : Bool) (m : σ)
    (family : DeviceFamily) (h : WrittenNumber) (before after : List Token) {operand : Operand}
    (plain : r.familySpace family (Reading.ofTokens r collectsWarnings m before).2 =
      family.colorSpace)
    (declared : InlineImage.valueUnder ["CS", "ColorSpace"]
      (Node.imageEntries (ofTokens r collectsWarnings before m).1.nodes) = some operand)
    (inImage : operand.IndexedOver family h) {doc : Document} {scope : Scope}
    {resources entries : Dictionary} {name : String} {o : PdfObject}
    (current : scope.resources = some resources)
    (spaces : doc.dictionary? resources "ColorSpace" = some entries)
    (entry : entries.entry? name = some o) (inDocument : doc.IndexedOver family h o)
    (options : Options) (history : List Call) {memory : Memory}
    (session : memory.session = doc.after history { options }) :
    ∃ n image inlined resolved,
      (ofTokens r collectsWarnings (before ++ .operator "EI" :: after) m).1.nodes[
          (Token.operators before).length]? = some n ∧ n.kind = .inlineImage (some image) ∧
        image.colorSpace = some (.indexed family.colorSpace inlined) ∧
        (scope.colorSpace doc name memory).1 =
          .ok (some (.indexed family.colorSpace resolved)) ∧
        resolved ≤ 255 ∧ (inlined = resolved ↔ h.Suits) := by
  obtain ⟨image, kind, -, space⟩ := Interpreter.step_endImage r
    (Reading.ofTokens r collectsWarnings m before).1.interpreter (Token.waiting before)
    (Reading.ofTokens r collectsWarnings m before).2
  have left := Reading.imageEntries_ofTokens r collectsWarnings m before
  change InlineImage.valueUnder _ (Node.imageEntries
    (Reading.ofTokens r collectsWarnings m before).1.nodes.toList) = some operand at declared
  rw [left, declared, Option.bind_some] at space
  obtain ⟨rest, known, own⟩ := inImage
  have denotes : Operand.Denotes family
      (r.familySpace family (Reading.ofTokens r collectsWarnings m before).2) _ _ :=
    .indexed (h.operand :: rest) known (.name own)
  rw [Interpreter.inlineColorSpace_of_denotes r denotes, plain] at space
  refine ⟨_, image, _, Document.highestIndex h.object,
    Reading.getElem?_nodes_ofTokens r collectsWarnings m before "EI" after, kind, space, ?_, ?_,
    h.highestIndex_eq_iff⟩
  · exact colorSpace_of_loads current spaces entry (inDocument.loads 7) options history session
  · rw [h.highestIndex_object]
    split <;> omega

def paletteDocument (h : WrittenNumber) : Document where
  objects := [(⟨1, 0⟩, .array [nameObject "Indexed", nameObject "DeviceGray", .reference ⟨2, 0⟩,
      .string [0x00]]),
    (⟨2, 0⟩, h.object)]

def paletteSpaces : Dictionary := [(Bytes.ofUtf8 "P", .reference ⟨1, 0⟩)]

def paletteScope : Scope where
  resources := some [(Bytes.ofUtf8 "ColorSpace", .dictionary paletteSpaces)]

def paletteOperand (h : WrittenNumber) : Operand :=
  .array [.name "I", .name "G", h.operand, .hex [0x00]]

def paletteTokens (h : WrittenNumber) : List Token :=
  [.operator "BI", .operand (.dictionary [("CS", paletteOperand h)]), .operator "ID"]

def paletteResources (h : WrittenNumber) : Resources Memory :=
  (paletteDocument h).streamResources 0 paletteScope

def paletteModel (h : WrittenNumber) : Model :=
  (ofTokens (paletteResources h) true (paletteTokens h ++ [.operator "EI"]) { session := {} }).1

theorem indexedOver_paletteDocument (h : WrittenNumber) :
    (paletteDocument h).IndexedOver .gray h (.reference ⟨1, 0⟩) := by
  have number : (paletteDocument h).Stands h.object (.reference ⟨2, 0⟩) := by
    cases h <;> exact .reference rfl
  exact .array ⟨_, .reference rfl, .itself rfl⟩ (by decide) (.itself rfl) (by decide) number

theorem ofTokens_indexedSpace_greatest :
    WrittenNumber.Suits (.integer 255) ∧
      ∃ n image inlined resolved, (paletteModel (.integer 255)).nodes[2]? = some n ∧
        n.kind = .inlineImage (some image) ∧
        image.colorSpace = some (.indexed .deviceGray inlined) ∧
        (paletteScope.colorSpace (paletteDocument (.integer 255)) "P" { session := {} }).1 =
          .ok (some (.indexed .deviceGray resolved)) ∧ resolved ≤ 255 ∧ inlined = resolved := by
  have suits : WrittenNumber.Suits (.integer 255) := by
    refine ⟨rfl, fun q same => .inr ?_⟩
    cases same
    decide
  have declared : InlineImage.valueUnder ["CS", "ColorSpace"] (Node.imageEntries
      (ofTokens (paletteResources (.integer 255)) true (paletteTokens (.integer 255))
        { session := {} }).1.nodes) = some (paletteOperand (.integer 255)) := rfl
  have current : paletteScope.resources =
    some [(Bytes.ofUtf8 "ColorSpace", .dictionary paletteSpaces)] := rfl
  have entry : paletteSpaces.entry? "P" = some (.reference ⟨1, 0⟩) := rfl
  have session : (({ session := {} } : Memory)).session =
    (paletteDocument (.integer 255)).after [] {} := rfl
  obtain ⟨n, image, inlined, resolved, node, kind, inImage, inResources, bound, same⟩ :=
    ofTokens_indexedSpace (paletteResources (.integer 255)) true { session := {} } .gray
      (.integer 255) (paletteTokens (.integer 255)) [] rfl declared
      (.array [.hex [0x00]] (by decide) (by decide)) current rfl entry
      (indexedOver_paletteDocument _) {} [] session
  exact ⟨suits, n, image, inlined, resolved, node, kind, inImage, inResources, bound,
    same.2 suits⟩

theorem ofTokens_indexedSpace_above :
    ∃ n image, (paletteModel (.integer 300)).nodes[2]? = some n ∧
      n.kind = .inlineImage (some image) ∧
      image.colorSpace = some (.indexed .deviceGray 300) ∧
      (paletteScope.colorSpace (paletteDocument (.integer 300)) "P" { session := {} }).1 =
        .ok (some (.indexed .deviceGray 255)) := by
  refine ⟨_, _, rfl, rfl, rfl, ?_⟩
  have index : Document.highestIndex (.integer 300) = 255 := by decide +kernel
  have loads := (indexedOver_paletteDocument (.integer 300)).loads 7
  rw [WrittenNumber.object, index] at loads
  have entry : paletteSpaces.entry? "P" = some (.reference ⟨1, 0⟩) := rfl
  exact colorSpace_of_loads rfl rfl entry loads {} [] rfl

end Model

end PdfContent
