import Mathlib.Data.List.SplitBy
import PdfContent.Proofs.KeptResources
import PdfContent.Proofs.NodeLinks
import PdfContent.Proofs.Numerals

/-!
Fonts that a parameter dictionary gives by reference. The reference is carried through the graphics
state as text. It is read back as the number that it spells, and leads a text operator to the font
that a resource entry for that number gives, whatever a session keeps under the number.
-/

namespace PdfContent

namespace Numeral

variable {radix greatest n d : Nat} {cs : List Char}

theorem Spells.concat (h : Spells radix cs n) (lt : d < radix) :
    Spells radix (cs ++ [d.digitChar]) (radix * n + d) := by
  obtain ⟨ne, digits, own, rfl⟩ := h
  refine ⟨by simp, digits ++ [d], ?_, ?_⟩
  · exact List.rel_append own (.cons ⟨lt, .inl rfl⟩ .nil)
  · rw [List.reverse_append, List.reverse_singleton, List.singleton_append, Nat.ofDigits_cons]
    exact Nat.add_comm _ _

theorem spells_toDigits (n : Nat) : Spells 10 (Nat.toDigits 10 n) n := by
  induction n using Nat.strongRecOn with
  | ind n ih =>
    by_cases small : n < 10
    · rw [Nat.toDigits_of_lt_base small]
      exact spells_map_digitChar [n] (List.cons_ne_nil n []) (by simpa using small)
    · rw [Nat.toDigits_of_base_le (by decide) (Nat.le_of_not_lt small)]
      have higher := (ih (n / 10) (by omega)).concat (Nat.mod_lt n (by decide : 0 < 10))
      rwa [Nat.div_add_mod] at higher

theorem parse?_toDigits (le : n ≤ greatest) : parse? 10 greatest (Nat.toDigits 10 n) = some n :=
  (parse?_eq_some_iff (by decide)).2 ⟨.inl (spells_toDigits n), le⟩

end Numeral

namespace Text

variable {cs : List Char}

def IsWord (cs : List Char) : Prop := cs ≠ [] ∧ ∀ c ∈ cs, isBlank c = false

theorem isWord_toDigits (n : Nat) : IsWord (Nat.toDigits 10 n) := by
  have spelled := Numeral.spells_toDigits n
  exact ⟨spelled.1, CMap.not_isBlank_of_digits (spelled.mem (by decide))⟩

theorem IsWord.any (h : IsWord cs) : cs.any (fun c => !isBlank c) = true := by
  obtain ⟨c, mem⟩ := List.exists_mem_of_ne_nil cs h.1
  exact List.any_eq_true.2 ⟨c, mem, by rw [h.2 c mem]; rfl⟩

theorem IsWord.isChain (h : IsWord cs) : cs.IsChain fun x y => (isBlank x == isBlank y) = true := by
  refine List.Pairwise.isChain (List.pairwise_of_forall_mem_list fun x hx y hy => ?_)
  rw [h.2 x hx, h.2 y hy]
  rfl

theorem words_spaced {a b c : List Char} (ha : IsWord a) (hb : IsWord b) (hc : IsWord c) :
    words (String.ofList (a ++ ' ' :: (b ++ ' ' :: c))) = [a, b, c] := by
  have pieces : a ++ ' ' :: (b ++ ' ' :: c) = [a, [' '], b, [' '], c].flatten := by simp
  have blank : isBlank ' ' = true := by decide +kernel
  have split : [a, [' '], b, [' '], c].flatten.splitBy (fun x y => isBlank x == isBlank y) =
      [a, [' '], b, [' '], c] := by
    refine List.splitBy_flatten ?_ ?_ ?_
    · simp [ha.1.symm, hb.1.symm, hc.1.symm]
    · simp only [List.forall_mem_cons, List.isChain_singleton, List.not_mem_nil, false_implies,
        implies_true, and_true, true_and]
      exact ⟨ha.isChain, hb.isChain, hc.isChain⟩
    · simp [ha.1, hb.1, hc.1, blank, ha.2, hb.2, hc.2]
  unfold words
  rw [String.toList_ofList, pieces, split]
  simp [ha.any, hb.any, hc.any, blank]

end Text

namespace ObjectId

structure Fits (id : ObjectId) : Prop where
  number : id.number ≤ Numeral.greatest32
  generation : id.generation ≤ Numeral.greatest16

theorem reference_eq (id : ObjectId) :
    id.reference = String.ofList (Nat.toDigits 10 id.number ++
      ' ' :: (Nat.toDigits 10 id.generation ++ ' ' :: ['R'])) := by
  rw [← String.toList_inj]
  simp only [reference, text, toString, String.toList_append, String.toList_ofList, Nat.toList_repr]
  simp

end ObjectId

namespace Document

theorem font_streamResources (doc : Document) (depth : Nat) (scope : Scope) :
    (doc.streamResources depth scope).font = scope.font doc := by
  cases depth <;> rfl

theorem extGState_streamResources (doc : Document) (depth : Nat) (scope : Scope) :
    (doc.streamResources depth scope).extGState = scope.extGState doc := by
  cases depth <;> rfl

theorem referenceOf?_reference {id : ObjectId} (fits : id.Fits) :
    Scope.referenceOf? id.reference = some id := by
  have r : Text.IsWord ['R'] := ⟨List.cons_ne_nil _ _, List.forall_mem_singleton.2 rfl⟩
  have words := Text.words_spaced (Text.isWord_toDigits id.number)
    (Text.isWord_toDigits id.generation) r
  unfold Scope.referenceOf?
  rw [ObjectId.reference_eq, words]
  change (Numeral.parse? 10 _ _).bind _ = _
  rw [Numeral.parse?_toDigits fits.number, Numeral.parse?_toDigits fits.generation]
  rfl

theorem reference_injective {id other : ObjectId} (fits : id.Fits) (fits' : other.Fits)
    (same : id.reference = other.reference) : id = other := by
  have read := referenceOf?_reference fits
  rw [same, referenceOf?_reference fits'] at read
  exact (Option.some.inj read).symm

def fontUnder (id : ObjectId) (font : Font) (s : Session) : Font := (s.fonts.get? id).getD font

def HoldsFont (doc : Document) (id : ObjectId) (font : Font) : Prop :=
  ∃ o, doc.object id = .ok o ∧ doc.fontIn? o = some font

section Fonts

variable {doc : Document} {id : ObjectId} {font : Font}

theorem fontIn?_eq_some {o : PdfObject} (h : doc.fontIn? o = some font) :
    ∃ d, o.dictionary? = some d ∧ doc.readFont d = .ok font := by
  obtain ⟨d, dictionary, loads⟩ := Option.bind_eq_some_iff.1 h
  refine ⟨d, dictionary, ?_⟩
  cases read : doc.readFont d with
  | error failure =>
    rw [read] at loads
    cases loads
  | ok other =>
    rw [read] at loads
    exact congrArg _ (Option.some.inj loads)

theorem HoldsFont.resolve (h : doc.HoldsFont id font) :
    ∃ d, (doc.resolve (.reference id)).dictionary? = some d ∧ doc.readFont d = .ok font := by
  obtain ⟨o, leads, held⟩ := h
  rw [(Stands.reference leads).resolve]
  exact fontIn?_eq_some held

theorem loadKeptFont_fontUnder {d : Dictionary} (loads : doc.readFont d = .ok font) (m : Memory) :
    (Scope.loadKeptFont doc (some id) d m).1 = .ok (fontUnder id font m.session) := by
  unfold Scope.loadKeptFont fontUnder
  cases kept : m.session.fonts.get? id with
  | some other => simp only [kept, Option.getD_some]
  | none => simp only [loads, Cache.getOrInsert_fst, kept]

theorem HoldsFont.lasting (h : doc.HoldsFont id font) (under : Font) :
    doc.Lasting fun s => fontUnder id font s = under where
  colorSpace scope name m hm := by
    unfold Scope.colorSpace
    split
    · rename_i found o _
      change fontUnder id font (Scope.loadKeptSpace doc found o m).2.session = under
      rw [fontUnder, loadKeptSpace_fonts]
      exact hm
    · exact hm
  font scope name m hm := by
    unfold Scope.font
    split
    · exact hm
    · rename_i number o entry
      split
      · exact hm
      · rename_i d dictionary
        change fontUnder id font (Memory.noting (Scope.loadKeptFont doc number d m)).2.session = _
        rw [noting_session]
        refine loadKeptFont_cases
          (motive := fun result => fontUnder id font result.2.session = under) doc number d m
          (fun _ => hm) (fun _ _ _ _ => hm) ?_
        rintro other loaded rfl unkept loads
        rw [fontUnder, Cache.get?_getOrInsert]
        by_cases same : id = other
        · -- The first font that is stored under the number is the one its object holds.
          subst same
          obtain ⟨d', dictionary', loads'⟩ := h.resolve
          rw [fontEntry?_reference entry, dictionary] at dictionary'
          cases dictionary'
          cases loads.symm.trans loads'
          rw [if_pos (beq_self_eq_true id), unkept]
          rw [fontUnder, unkept] at hm
          exact hm
        · rw [if_neg (by simpa using same)]
          exact hm
  separations _ _ hm := hm
  forms _ _ hm := hm

end Fonts

def LeavesFont (tokens : List Token) : Prop :=
  ∀ name ∈ Token.operators tokens, name ∉ ["Tf", "gs", "Q"]

theorem fontParts_foreign {name : String} (h : name ∉ ["Tf", "gs", "Q"]) :
    StatePart.fontName ∉ StatePart.ofOperator name ∧
      StatePart.fontSize ∉ StatePart.ofOperator name := by
  have listed : ∀ entry ∈ StatePart.table, entry.1 ∉ ["Tf", "gs", "Q"] →
      StatePart.fontName ∉ entry.2 ∧ StatePart.fontSize ∉ entry.2 := by decide +kernel
  unfold StatePart.ofOperator
  cases found : StatePart.table.lookup name with
  | none => exact ⟨List.not_mem_nil, List.not_mem_nil⟩
  | some parts =>
    obtain ⟨front, rest, split, -⟩ := List.lookup_eq_some_iff.1 found
    exact listed (name, parts) (by simp [split]) h

structure Selected (id : ObjectId) (font under : Font) (name : String) (size : Float)
    (reading : Reading × Memory) : Prop where
  name : reading.1.interpreter.state.fontName = some name
  size : reading.1.interpreter.state.fontSize = size
  font : fontUnder id font reading.2.session = under

section Selected

variable {doc : Document} {id : ObjectId} {font under : Font} {name : String} {size : Float}
  {reading : Reading × Memory}

theorem Selected.feed (h : Selected id font under name size reading) (holds : doc.HoldsFont id font)
    (depth : Nat) (scope : Scope) {token : Token}
    (leaves : ∀ op, token.operator? = some op → op ∉ ["Tf", "gs", "Q"]) :
    Selected id font under name size
      (Reading.feed (doc.streamResources depth scope) reading token) := by
  cases token with
  | operand value => exact ⟨h.name, h.size, h.font⟩
  | stray text =>
    have context := Reading.skipStray_context reading.1.interpreter text
    have state : (reading.1.interpreter.skipStray text).state = reading.1.interpreter.state :=
      congrArg Context.live context
    exact ⟨(congrArg _ state).trans h.name, (congrArg _ state).trans h.size, h.font⟩
  | operator op =>
    have other := leaves op rfl
    have restore : op ≠ "Q" := by
      rintro rfl
      simp at other
    obtain ⟨foreignName, foreignSize⟩ := fontParts_foreign other
    have sameName := Interpreter.step_same (doc.streamResources depth scope)
      reading.1.interpreter restore reading.1.operands.toList foreignName reading.2
    have sameSize := Interpreter.step_same (doc.streamResources depth scope)
      reading.1.interpreter restore reading.1.operands.toList foreignSize reading.2
    exact ⟨sameName.symm.trans h.name, sameSize.symm.trans h.size,
      (holds.lasting under).step depth scope _ op _ h.font⟩

theorem Selected.foldl (h : Selected id font under name size reading)
    (holds : doc.HoldsFont id font) (depth : Nat) (scope : Scope) {tokens : List Token}
    (leaves : LeavesFont tokens) :
    Selected id font under name size
      (tokens.foldl (Reading.feed (doc.streamResources depth scope)) reading) := by
  induction tokens generalizing reading with
  | nil => exact h
  | cons token tokens ih =>
    refine ih (h.feed holds depth scope fun op hop => leaves op ?_) fun op mem => leaves op ?_
    · exact List.mem_filterMap.2 ⟨token, List.mem_cons_self .., hop⟩
    · obtain ⟨other, mem, hop⟩ := List.mem_filterMap.1 mem
      exact List.mem_filterMap.2 ⟨other, List.mem_cons_of_mem _ mem, hop⟩

def nodeBehind (r : Resources Memory) (reading : Reading × Memory) (tokens : List Token)
    (op : String) : Node :=
  let finish := tokens.foldl (Reading.feed r) reading
  (finish.1.interpreter.step r op finish.1.operands.toList finish.2).1.1

theorem Selected.links (h : Selected id font under name size reading)
    (holds : doc.HoldsFont id font) {scope : Scope} {o : PdfObject}
    (entry : scope.fontEntry? doc name = some (some id, o)) (depth : Nat) {between : List Token}
    (leaves : LeavesFont between) {op : String} (shows : op ∈ ["Tj", "TJ", "'", "\""]) :
    ∃ state, (nodeBehind (doc.streamResources depth scope) reading between op).state = some state ∧
      state.fontSize = size ∧
      (nodeBehind (doc.streamResources depth scope) reading between op).linked .font =
        [.font under] := by
  have finish := h.foldl holds depth scope leaves
  obtain ⟨state, link⟩ := Interpreter.step_shownFont (doc.streamResources depth scope) _ shows _ _
  refine ⟨_, state, finish.size, ?_⟩
  obtain ⟨d, dictionary, loads⟩ := holds.resolve
  rw [fontEntry?_reference entry] at dictionary
  have found : ∀ m : Memory,
      (scope.font doc name m).1.value? = some (fontUnder id font m.session) := by
    intro m
    unfold Scope.font
    rw [entry]
    dsimp only
    rw [dictionary]
    dsimp only
    rw [value?_found, noting_fst, loadKeptFont_fontUnder loads]
    rfl
  unfold Node.linked nodeBehind
  rw [link, finish.name, Option.bind_some, font_streamResources, found, finish.font]
  rfl

def SelectsByReference (doc : Document) (scope : Scope) (name : String) (id : ObjectId)
    (size : Float) : Prop :=
  ∃ number o d second rest, scope.entry? doc "ExtGState" name = some (number, o) ∧
    o.dictionary? = some d ∧ doc.array? d "Font" = some (.reference id :: second :: rest) ∧
    (doc.resolve second).number? = some size

theorem SelectsByReference.extGState {scope : Scope} {name : String}
    (h : doc.SelectsByReference scope name id size) (m : Memory) :
    ∃ ext, (scope.extGState doc name m).1.value? = some ext ∧
      ext.font = some ⟨id.reference, size⟩ := by
  obtain ⟨number, o, d, second, rest, entry, dictionary, items, written⟩ := h
  refine ⟨doc.readExtGState d, ?_, ?_⟩
  · unfold Scope.extGState
    rw [entry]
    dsimp only
    rw [dictionary]
    rfl
  · change doc.fontSelection? d = _
    unfold fontSelection?
    rw [items]
    simp [fontNameOf?, written]

theorem overlay_of_font {ext : ExtGState} {selection : FontSelection}
    (h : ext.font = some selection) (gs : GraphicsState) :
    (gs.overlay ext).fontName = some selection.name ∧
      (gs.overlay ext).fontSize = selection.size := by
  unfold GraphicsState.overlay GraphicsState.overlayFont
  rw [h]
  exact ⟨rfl, rfl⟩

theorem selected_extGState {scope : Scope} {gs : String}
    (h : doc.SelectsByReference scope gs id size) (holds : doc.HoldsFont id font) (depth : Nat)
    (operand : reading.1.operands.toList.head?.bind Operand.name? = some gs) :
    Selected id font (fontUnder id font reading.2.session) id.reference size
      (Reading.feed (doc.streamResources depth scope) reading (.operator "gs")) := by
  obtain ⟨ext, found, selects⟩ := h.extGState reading.2
  have stack := Interpreter.extGState_stack (doc.streamResources depth scope)
    reading.1.operands.toList reading.1.interpreter.context reading.2
  rw [operand, Option.bind_some, extGState_streamResources, found] at stack
  have live : (Reading.feed (doc.streamResources depth scope) reading
      (.operator "gs")).1.interpreter.state = reading.1.interpreter.state.overlay ext :=
    congrArg StateStack.live stack
  obtain ⟨name, size⟩ := overlay_of_font selects reading.1.interpreter.state
  exact ⟨(congrArg _ live).trans name, (congrArg _ live).trans size,
    (holds.lasting _).step depth scope _ "gs" _ rfl⟩

theorem selected_textFont (scope : Scope) (holds : doc.HoldsFont id font) (depth : Nat)
    (operands : Interpreter.namedFont? reading.1.operands.toList = some ⟨name, size⟩) :
    Selected id font (fontUnder id font reading.2.session) name size
      (Reading.feed (doc.streamResources depth scope) reading (.operator "Tf")) := by
  have live : (Reading.feed (doc.streamResources depth scope) reading
      (.operator "Tf")).1.interpreter.state = _ :=
    Interpreter.textFont_live (doc.streamResources depth scope)
      reading.1.operands.toList reading.1.interpreter.context reading.2
  rw [operands] at live
  exact ⟨congrArg GraphicsState.fontName live, congrArg GraphicsState.fontSize live,
    (holds.lasting _).step depth scope _ "Tf" _ rfl⟩

theorem fontEntry?_of_reference (fits : id.Fits) {o : PdfObject} (leads : doc.object id = .ok o)
    {scope : Scope} (unnamed : scope.entry? doc "Font" id.reference = none) :
    scope.fontEntry? doc id.reference = some (some id, o) := by
  unfold Scope.fontEntry?
  rw [unnamed, referenceOf?_reference fits]
  dsimp only [Option.bind_some]
  rw [leads]
  rfl

theorem fontUnder_after (holds : doc.HoldsFont id font) (options : Options) (history : List Call) :
    fontUnder id font (doc.after history { options }) = font :=
  (holds.lasting font).after history rfl

end Selected

/-- A reference is read back as the number that it spells, so no two numbers share one. A font that
a parameter dictionary gives by reference, where no resource goes by the text of it, is found by
text operators in any state of a stream and in any session as `Tf` finds it by a resource entry for
the number, and its size is selected with it. After analyses of the document alone it is the font
that loads from the object. -/
theorem font_of_reference (doc : Document) :
    (∀ id : ObjectId, id.Fits → Scope.referenceOf? id.reference = some id) ∧
    (∀ id other : ObjectId, id.Fits → other.Fits → id.reference = other.reference → id = other) ∧
    ∀ (id : ObjectId) (font : Font), id.Fits → doc.HoldsFont id font →
      (∀ depth scope gs size, doc.SelectsByReference scope gs id size →
        scope.entry? doc "Font" id.reference = none →
        ∀ reading : Reading × Memory,
          reading.1.operands.toList.head?.bind Operand.name? = some gs →
          let r := doc.streamResources depth scope
          let behind := Reading.feed r reading (.operator "gs")
          behind.1.interpreter.state.fontSize = size ∧
            ∀ between, LeavesFont between → ∀ op ∈ ["Tj", "TJ", "'", "\""],
              ∃ state, (nodeBehind r behind between op).state = some state ∧
                state.fontSize = size ∧ (nodeBehind r behind between op).linked .font =
                  [.font (fontUnder id font reading.2.session)]) ∧
      (∀ depth scope name o size, scope.entry? doc "Font" name = some (some id, o) →
        ∀ reading : Reading × Memory,
          Interpreter.namedFont? reading.1.operands.toList = some ⟨name, size⟩ →
          let r := doc.streamResources depth scope
          let behind := Reading.feed r reading (.operator "Tf")
          ∀ between, LeavesFont between → ∀ op ∈ ["Tj", "TJ", "'", "\""],
            (nodeBehind r behind between op).linked .font =
              [.font (fontUnder id font reading.2.session)]) ∧
      ∀ options history, fontUnder id font (doc.after history { options }) = font := by
  refine ⟨fun id => referenceOf?_reference, fun id other => reference_injective, ?_⟩
  intro id font fits holds
  refine ⟨?_, ?_, fontUnder_after holds⟩
  · intro depth scope gs size selects unnamed reading operand r behind
    have selected := selected_extGState selects holds depth operand
    obtain ⟨o, leads, held⟩ := holds
    have named := fontEntry?_of_reference fits leads unnamed
    refine ⟨selected.size, fun between leaves op shows => ?_⟩
    exact selected.links ⟨o, leads, held⟩ named depth leaves shows
  · intro depth scope name o size entry reading operands r behind between leaves op shows
    have selected := selected_textFont scope holds depth operands
    have named : scope.fontEntry? doc name = some (some id, o) := by
      unfold Scope.fontEntry?
      rw [entry]
    obtain ⟨-, -, -, link⟩ := selected.links holds named depth leaves shows
    exact link

def helveticaDocument : Document where
  objects := [(⟨7, 0⟩, .dictionary [(Bytes.ofUtf8 "Type", nameObject "Font"),
    (Bytes.ofUtf8 "Subtype", nameObject "Type1"),
    (Bytes.ofUtf8 "BaseFont", nameObject "Helvetica")])]

def helveticaScope : Scope where
  resources := some [
    (Bytes.ofUtf8 "ExtGState", .dictionary [(Bytes.ofUtf8 "GS",
      .dictionary [(Bytes.ofUtf8 "Font", .array [.reference ⟨7, 0⟩, .real 12.5])])]),
    (Bytes.ofUtf8 "Font", .dictionary [(Bytes.ofUtf8 "F", .reference ⟨7, 0⟩)])]

theorem font_of_reference_helvetica :
    let r := helveticaDocument.streamResources 9 helveticaScope
    let start (operands : Array Operand) : Reading × Memory := ({ operands }, { session := {} })
    ∃ font, helveticaDocument.HoldsFont ⟨7, 0⟩ font ∧
      (nodeBehind r (Reading.feed r (start #[.name "GS"]) (.operator "gs"))
        [.operand (.literal [0x41])] "Tj").linked .font = [.font font] ∧
      (nodeBehind r (Reading.feed r (start #[.name "F", .integer 9]) (.operator "Tf"))
        [.operand (.literal [0x41])] "Tj").linked .font = [.font font] := by
  intro r start
  have fits : ObjectId.Fits ⟨7, 0⟩ := ⟨by decide, by decide⟩
  have loads :
      (helveticaDocument.fontIn? (helveticaDocument.resolve (.reference ⟨7, 0⟩))).isSome := by
    decide +kernel
  obtain ⟨font, held⟩ := Option.isSome_iff_exists.1 loads
  have holds : helveticaDocument.HoldsFont ⟨7, 0⟩ font := ⟨_, rfl, held⟩
  have leaves : LeavesFont [.operand (.literal [0x41])] := by
    intro name mem
    cases mem
  obtain ⟨-, -, reaches⟩ := font_of_reference helveticaDocument
  obtain ⟨selecting, naming, -⟩ := reaches ⟨7, 0⟩ font fits holds
  refine ⟨font, holds, ?_, ?_⟩
  · have selects : helveticaDocument.SelectsByReference helveticaScope "GS" ⟨7, 0⟩ 12.5 :=
      ⟨_, _, _, _, _, rfl, rfl, rfl, rfl⟩
    obtain ⟨-, shown⟩ := selecting 9 helveticaScope "GS" 12.5 selects (by decide +kernel)
      (start #[.name "GS"]) rfl
    obtain ⟨-, -, -, link⟩ := shown _ leaves "Tj" (by decide)
    exact link
  · exact naming 9 helveticaScope "F" _ _ rfl (start #[.name "F", .integer 9]) rfl _ leaves "Tj"
      (by decide)

end Document

end PdfContent
