import PdfContent.Document.StreamResources
import PdfContent.Proofs.SpelledNames

/-!
Names and the resources they select. A document keys its resources by bytes, while a name in a
content stream is text: the bytes are decoded when the name is read and encoded again when it is
looked up. Both steps together lose nothing exactly where the bytes are well-formed UTF-8, and then
a name selects the entry with its own bytes and no other.
-/

namespace PdfContent.Document

inductive Category
  | colorSpace
  | font
  | pattern
  | shading
  | xobject
  | extGState

namespace Category

def key : Category → String
  | colorSpace => "ColorSpace"
  | font => "Font"
  | pattern => "Pattern"
  | shading => "Shading"
  | xobject => "XObject"
  | extGState => "ExtGState"

def Value : Category → Type
  | colorSpace => ColorSpace
  | font => Font
  | pattern => Pattern
  | shading => Shading
  | xobject => XObject
  | extGState => ExtGState

def lookup {σ : Type} (r : Resources σ) : (c : Category) → Lookup σ c.Value
  | colorSpace => r.colorSpace
  | font => r.font
  | pattern => r.pattern
  | shading => r.shading
  | xobject => r.xobject
  | extGState => r.extGState

def load (doc : Document) (nested : Nested) (scope : Scope) (name : String) (id : Option ObjectId)
    (o : PdfObject) (m : Memory) : (c : Category) → Found c.Value × Memory
  | colorSpace => Memory.found (Scope.loadKeptSpace doc id o m)
  | font =>
    match o.dictionary? with
    | none => (.error (.resource (.fontNotDictionary name)), m)
    | some d => Memory.found (Memory.noting (Scope.loadKeptFont doc id d m))
  | pattern => Memory.found (m.loadSpace (doc.loadPattern name o))
  | shading => Memory.found (m.loadSpace (doc.loadShading o))
  | xobject =>
    match o with
    | .stream entries data =>
      Memory.found (doc.readXObject nested scope name id entries data m)
    | _ => (.error (.resource (.xobjectNotStream name)), m)
  | extGState =>
    match o.dictionary? with
    | none => (.error (.resource (.extGStateNotDictionary name)), m)
    | some d => (.ok (some (doc.readExtGState d)), m)

theorem lookup_of_entry {doc : Document} {scope : Scope} {c : Category} {name : String}
    {id : Option ObjectId} {o : PdfObject} (h : scope.entry? doc c.key name = some (id, o))
    (nested : Nested) (m : Memory) :
    c.lookup (scope.resourcesWith doc nested) name m = c.load doc nested scope name id o m := by
  cases c with
  | colorSpace =>
    change scope.colorSpace doc name m = _
    simp only [Scope.colorSpace, show scope.entry? doc "ColorSpace" name = _ from h]
    rfl
  | font =>
    change scope.font doc name m = _
    simp only [Scope.font, Scope.fontEntry?, show scope.entry? doc "Font" name = _ from h]
    rfl
  | pattern =>
    change scope.pattern doc name m = _
    simp only [Scope.pattern, show scope.entry? doc "Pattern" name = _ from h]
    rfl
  | shading =>
    change scope.shading doc name m = _
    simp only [Scope.shading, show scope.entry? doc "Shading" name = _ from h]
    rfl
  | xobject =>
    change scope.xobject doc nested name m = _
    simp only [Scope.xobject, show scope.entry? doc "XObject" name = _ from h]
    cases o <;> rfl
  | extGState =>
    change scope.extGState doc name m = _
    simp only [Scope.extGState, show scope.entry? doc "ExtGState" name = _ from h]
    rfl

end Category

namespace Scope

def category? (doc : Document) (scope : Scope) (c : Category) : Option Dictionary :=
  scope.resources.bind fun resources => doc.dictionary? resources c.key

def stored? (doc : Document) (scope : Scope) (c : Category) (key : Bytes) : Option PdfObject :=
  (scope.category? doc c).bind (List.lookup key)

def selected? (doc : Document) (scope : Scope) (c : Category) (name : String) :
    Option (Bytes × PdfObject) :=
  (scope.category? doc c).bind fun entries => entries.find? (·.1 == Bytes.ofUtf8 name)

theorem find?_key (entries : Dictionary) (key : Bytes) :
    entries.find? (·.1 == key) = (entries.lookup key).map (key, ·) := by
  induction entries with
  | nil => rfl
  | cons e entries ih =>
    obtain ⟨k, o⟩ := e
    by_cases h : k = key
    · subst h
      simp
    · have hk : (key == k) = false := beq_false_of_ne (Ne.symm h)
      rw [List.find?_cons_of_neg (by simpa using h), ih, List.lookup_cons, hk]

theorem selected?_eq (doc : Document) (scope : Scope) (c : Category) (name : String) :
    scope.selected? doc c name =
      (scope.stored? doc c (Bytes.ofUtf8 name)).map (Bytes.ofUtf8 name, ·) := by
  unfold selected? stored?
  cases scope.category? doc c with
  | none => rfl
  | some entries => exact find?_key entries _

theorem entry?_eq_selected (doc : Document) (scope : Scope) (c : Category) (name : String) :
    scope.entry? doc c.key name =
      (scope.selected? doc c name).map fun e => (e.2.reference?, doc.resolve e.2) := by
  rw [selected?_eq]
  unfold entry? stored? category?
  cases scope.resources with
  | none => rfl
  | some resources =>
    simp only [Option.bind_some, Option.bind_eq_bind]
    cases doc.dictionary? resources c.key with
    | none => rfl
    | some entries =>
      simp only [Option.bind_some, Dictionary.entry?]
      cases List.lookup (Bytes.ofUtf8 name) entries <;> rfl

end Scope

open Token (readTokens_name)

/-- A name of well-formed bytes, however it is spelled and wherever it stands, selects the entry
stored under those bytes, which no other such name selects. -/
theorem lookup_spelledName {n written t : Bytes} (wellFormed : ∃ text, Bytes.ofUtf8 text = n)
    (spelled : Operand.Spells written n) (ends : Bytes.EndsRun t) :
    (∀ s, skipBlank s = Byte.slash :: (written ++ t) →
      Token.ofBytes s = (Token.ofBytes t).map ([.operand (.name n.toText)] ++ ·)) ∧
    ∀ (doc : Document) (scope : Scope) (c : Category) (o : PdfObject),
      scope.stored? doc c n = some o →
        scope.selected? doc c n.toText = some (n, o) ∧
        (∀ nested m, c.lookup (scope.resourcesWith doc nested) n.toText m =
          c.load doc nested scope n.toText o.reference? (doc.resolve o) m) ∧
        ∀ n', (∃ text, Bytes.ofUtf8 text = n') → n' ≠ n →
          n'.toText ≠ n.toText ∧ scope.selected? doc c n'.toText ≠ some (n, o) := by
  refine ⟨fun s hs => Token.ofBytes_cons hs (readTokens_name spelled ends), ?_⟩
  intro doc scope c o stored
  have key : Bytes.ofUtf8 n.toText = n := (Bytes.ofUtf8_toText_eq_iff n).2 wellFormed
  have selected : scope.selected? doc c n.toText = some (n, o) := by
    rw [Scope.selected?_eq, key, stored]
    rfl
  have found : scope.entry? doc c.key n.toText = some (o.reference?, doc.resolve o) := by
    rw [Scope.entry?_eq_selected, selected]
    rfl
  refine ⟨selected, fun nested m => Category.lookup_of_entry found nested m, ?_⟩
  intro n' wellFormed' hne
  have hne' : n'.toText ≠ n.toText := mt (Bytes.toText_inj wellFormed' wellFormed).1 hne
  refine ⟨hne', fun hsel => hne ?_⟩
  rw [Scope.selected?_eq, (Bytes.ofUtf8_toText_eq_iff n').2 wellFormed'] at hsel
  obtain ⟨o', -, he⟩ := Option.map_eq_some_iff.1 hsel
  exact congrArg Prod.fst he

def multiplyState : PdfObject :=
  .dictionary [(Bytes.ofUtf8 "BM", .name (Bytes.ofUtf8 "Multiply"))]

def stateUnder (key : Bytes) : Scope where
  resources := some [(Bytes.ofUtf8 "ExtGState", .dictionary [(key, multiplyState)])]

theorem stateUnder_stored (key : Bytes) :
    (stateUnder key).stored? {} .extGState key = some multiplyState := by
  simp [Scope.stored?, Scope.category?, stateUnder, dictionary?, get?, Dictionary.entry?,
    Category.key, resolve, PdfObject.dictionary?]

theorem lookup_spelledName_accent :
    (∃ text, Bytes.ofUtf8 text = [0xC3, 0xA9]) ∧
      Operand.Spells (Bytes.ofUtf8 "#c3" ++ [0xA9]) [0xC3, 0xA9] ∧
      Token.ofBytes (Byte.slash :: (Bytes.ofUtf8 "#c3" ++ [0xA9] ++ Bytes.ofUtf8 " gs")) =
        (Token.ofBytes (Bytes.ofUtf8 " gs")).map ([.operand (.name "é")] ++ ·) ∧
      (stateUnder [0xC3, 0xA9]).selected? {} .extGState "é" =
        some ([0xC3, 0xA9], multiplyState) := by
  have wellFormed : ∃ text, Bytes.ofUtf8 text = [0xC3, 0xA9] := ⟨"é", by decide⟩
  have spelled : Operand.Spells (Bytes.ofUtf8 "#c3" ++ [0xA9]) [0xC3, 0xA9] :=
    Operand.spells_iff.2 (by decide +kernel)
  have ends : Bytes.EndsRun (Bytes.ofUtf8 " gs") := Bytes.endsRun_cons (by decide) _
  have text : Bytes.toText [0xC3, 0xA9] = "é" := by decide +kernel
  obtain ⟨read, select⟩ := lookup_spelledName wellFormed spelled ends
  rw [text] at read select
  have start : skipBlank (Byte.slash :: (Bytes.ofUtf8 "#c3" ++ [0xA9] ++ Bytes.ofUtf8 " gs")) =
      Byte.slash :: (Bytes.ofUtf8 "#c3" ++ [0xA9] ++ Bytes.ofUtf8 " gs") :=
    skipBlank_of_not_isGap (by decide) _
  exact ⟨wellFormed, spelled, read _ start, (select _ _ _ _ (stateUnder_stored _)).1⟩

/-- A byte that begins no character is read as U+FFFD: its own entry is not found, and the entry of
that character is found for both. An escape in a name, and a blank, do not stand for themselves. -/
theorem lookup_spelledName_ne :
    (Operand.Spells [0xFF] [0xFF] ∧
      (stateUnder [0xFF]).stored? {} .extGState [0xFF] = some multiplyState ∧
      Token.readTokens Byte.slash [0xFF] = .ok ([.operand (.name "\uFFFD")], []) ∧
      (stateUnder [0xFF]).selected? {} .extGState "\uFFFD" = none ∧
      ∀ m, Category.extGState.lookup ((stateUnder [0xFF]).resourcesWith {} none) "\uFFFD" m =
        (.ok none, m)) ∧
    (Bytes.toText [0xFF] = "\uFFFD" ∧ Bytes.toText [0xEF, 0xBF, 0xBD] = "\uFFFD" ∧
      (stateUnder [0xEF, 0xBF, 0xBD]).selected? {} .extGState "\uFFFD" =
        some ([0xEF, 0xBF, 0xBD], multiplyState)) ∧
    Operand.readName (Bytes.ofUtf8 "#41") = ("A", []) ∧
    Operand.readName (Bytes.ofUtf8 "A B") = ("A", Bytes.ofUtf8 " B") := by
  have text : Bytes.toText [0xFF] = "\uFFFD" := by decide +kernel
  have text' : Bytes.toText [0xEF, 0xBF, 0xBD] = "\uFFFD" := by decide +kernel
  have key : Bytes.ofUtf8 "\uFFFD" = [0xEF, 0xBF, 0xBD] := by decide
  have spelled : Operand.Spells [0xFF] [0xFF] := Operand.spells_iff.2 (by decide +kernel)
  have read : Token.readTokens Byte.slash [0xFF] = .ok ([.operand (.name "\uFFFD")], []) := by
    rw [← text]
    exact readTokens_name spelled Bytes.endsRun_nil
  have lost : (stateUnder [0xFF]).selected? {} .extGState "\uFFFD" = none := by
    rw [Scope.selected?_eq, key]
    decide +kernel
  have missed : Scope.entry? {} (stateUnder [0xFF]) "ExtGState" "\uFFFD" = none := by
    have := Scope.entry?_eq_selected {} (stateUnder [0xFF]) .extGState "\uFFFD"
    rwa [lost] at this
  have found : (stateUnder [0xEF, 0xBF, 0xBD]).selected? {} .extGState "\uFFFD" =
      some ([0xEF, 0xBF, 0xBD], multiplyState) := by
    rw [Scope.selected?_eq, key, stateUnder_stored]
    rfl
  have nothing : ∀ m, (stateUnder [0xFF]).extGState {} "\uFFFD" m = (.ok none, m) := fun m => by
    simp only [Scope.extGState, missed]
  exact ⟨⟨spelled, stateUnder_stored _, read, lost, nothing⟩, ⟨text, text', found⟩,
    by decide +kernel, by decide +kernel⟩

end PdfContent.Document
