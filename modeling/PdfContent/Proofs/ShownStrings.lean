import PdfContent.Proofs.FormLookup
import PdfContent.Proofs.IdentityMaps
import PdfContent.Proofs.NodeLinks
import PdfContent.Proofs.SilentRuns

/-!
The strings of one text operator. Each gives its glyphs as if it were shown alone, and one that does
not split into codes gives a warning in place of glyphs. So `TJ` shows what `Tj` shows for each of
the strings of its array, whatever else is in the array, all in one state or one after another.
-/

namespace PdfContent

variable {σ : Type}

namespace Font

def decoded (f : Font) (s : Bytes) : List Glyph := (f.glyphs s).toOption.getD []

def undecodable (f : Font) (strings : List Bytes) : List (FontFault × Nat) :=
  strings.zipIdx.filterMap fun p =>
    match f.readCodes p.1 with
    | .ok _ => none
    | .error fault => some (fault, p.2)

theorem decoded_of_ok {f : Font} {s : Bytes} {codes : List CharCode}
    (read : f.readCodes s = .ok codes) : f.decoded s = codes.map f.glyphOfCode := by
  rw [decoded, glyphs, read]
  rfl

theorem decoded_of_error {f : Font} {s : Bytes} {fault : FontFault}
    (broken : f.readCodes s = .error fault) : f.decoded s = [] := by
  rw [decoded, glyphs, broken]
  rfl

end Font

namespace Node

def undecodedWarning (n : Node) (p : FontFault × Nat) : Warning :=
  let cause := (Failure.font p.1).message
  let place := p.2
  { code := .glyphDecode
    description := s!"string {place} could not be decoded: {cause}"
    site := some ⟨n.index, n.name⟩ }

theorem glyphs_of_kind {n : Node} {font : Option Font} {strings : List Bytes}
    (shows : n.kind = .textShow font strings) :
    n.glyphs = strings.flatMap fun s => font.toList.flatMap fun f => f.decoded s := by
  rw [glyphs, shown, shows]
  cases font with
  | none => simp
  | some f =>
    simp only [List.flatMap_map, Option.toList_some, List.flatMap_singleton]
    congr 1
    funext s
    rw [Font.decoded]
    cases f.glyphs s <;> rfl

theorem glyphs_showing (n : Node) (f : Font) (strings : List Bytes) :
    (n.showing f strings).glyphs = strings.flatMap f.decoded := by
  have shows : (n.showing f strings).kind = .textShow (some f) strings := rfl
  rw [glyphs_of_kind shows]
  simp only [Option.toList_some, List.flatMap_singleton]

theorem glyphWarnings_showing (n : Node) (f : Font) (strings : List Bytes) :
    (n.showing f strings).glyphWarnings = (f.undecodable strings).map n.undecodedWarning := by
  have shown : (n.showing f strings).shown = strings.map f.glyphs := rfl
  rw [glyphWarnings, shown, Font.undecodable, List.map_filterMap, List.zipIdx_map,
    List.filterMap_map]
  congr 1
  funext p
  simp only [Function.comp_apply, Prod.map, id_eq, Font.glyphs]
  cases f.readCodes p.1 <;> rfl

end Node

/-- A font that is looked up again straight away is the same one, or missing for the same reason. -/
def Resources.FontsStay (r : Resources σ) : Prop :=
  ∀ name m, (r.font name (r.font name m).2).1 = (r.font name m).1

theorem ResourceTable.fontsStay (table : ResourceTable) :
    (table.resources : Resources σ).FontsStay := fun _ _ => rfl

namespace Document

theorem loadKeptFont_again (doc : Document) (id : Option ObjectId) (d : Dictionary) (m : Memory) :
    (Scope.loadKeptFont doc id d (Scope.loadKeptFont doc id d m).2).1 =
      (Scope.loadKeptFont doc id d m).1 := by
  -- Where nothing is stored the memory is the same, and so is the answer.
  refine loadKeptFont_cases (motive := fun result => Scope.loadKeptFont doc id d m = result →
    (Scope.loadKeptFont doc id d result.2).1 = result.1) doc id d m ?_ ?_ ?_ rfl
  · intro _ first
    rw [first]
  · intro number font _ _ first
    rw [first]
  · rintro number font rfl fresh loaded -
    have kept : (m.session.fonts.getOrInsert number font).2.get? number = some font := by
      rw [Cache.get?_getOrInsert, if_pos BEq.rfl, fresh, Option.getD_none]
    unfold Scope.loadKeptFont
    simp only [kept]

theorem loadKeptFont_fst_congr (doc : Document) (id : Option ObjectId) (d : Dictionary)
    {m m' : Memory} (same : m.session = m'.session) :
    (Scope.loadKeptFont doc id d m).1 = (Scope.loadKeptFont doc id d m').1 := by
  unfold Scope.loadKeptFont
  rw [same]
  cases id with
  | none => rfl
  | some number =>
    dsimp only
    cases m'.session.fonts.get? number with
    | some font => rfl
    | none => cases doc.readFont d <;> rfl

theorem fontsStay_streamResources (doc : Document) (depth : Nat) (scope : Scope) :
    (doc.streamResources depth scope).FontsStay := by
  have font : (doc.streamResources depth scope).font = scope.font doc := by
    cases depth <;> rfl
  intro name m
  rw [font]
  unfold Scope.font
  cases scope.fontEntry? doc name with
  | none => rfl
  | some entry =>
    obtain ⟨id, o⟩ := entry
    dsimp only
    cases o.dictionary? with
    | none => rfl
    | some d =>
      refine congrArg (Except.map some) ?_
      rw [noting_fst, noting_fst, ← loadKeptFont_again doc id d m]
      exact loadKeptFont_fst_congr doc id d (noting_session _)

end Document

namespace Interpreter

open Resolving

variable (r : Resources σ)

def shownFont? (i : Interpreter) (m : σ) : Option Font :=
  i.state.fontName.bind fun name => (r.font name m).1.value?

def shownGlyphs (i : Interpreter) (m : σ) (s : Bytes) : List Glyph :=
  (i.shownFont? r m).toList.flatMap fun f => f.decoded s

theorem shownStrings_value (operands : List Operand) (shown : ShownOperand) (m : σ) :
    (shownStrings operands shown m).value = (shownStrings? operands shown).getD [] := by
  unfold shownStrings
  cases shownStrings? operands shown <;> rfl

section Shows

variable {name : String} {shown : ShownOperand} (op : Operation.ofName name = .textShow shown)

include op

theorem glyphs_step_of_shows (i : Interpreter) (operands : List Operand) (m : σ) :
    (i.step r name operands m).1.1.glyphs =
      ((shownStrings? operands shown).getD []).flatMap (i.shownGlyphs r m) := by
  have kind : (i.step r name operands m).1.1.kind =
      .textShow (i.shownFont? r m) ((shownStrings? operands shown).getD []) := by
    simp only [step, op, perform_textShow_kind, shownStrings_value]
    rfl
  exact Node.glyphs_of_kind kind

theorem step_of_shows (i : Interpreter) (operands : List Operand) (m : σ) :
    (i.step r name operands m).1.2.context = i.context ∧
      (i.step r name operands m).2 =
        (i.state.fontName.map fun font => (r.font font m).2).getD m := by
  simp only [step, op, perform, bind_value, bind_memory, pure_value, shownStrings_memory,
    selectedFont_memory]
  exact ⟨trivial, rfl⟩

theorem shownGlyphs_step_of_shows (stays : r.FontsStay) (i : Interpreter) (operands : List Operand)
    (m : σ) : (i.step r name operands m).1.2.shownGlyphs r (i.step r name operands m).2 =
      i.shownGlyphs r m := by
  obtain ⟨context, memory⟩ := step_of_shows r op i operands m
  have font : (i.step r name operands m).1.2.shownFont? r (i.step r name operands m).2 =
      i.shownFont? r m := by
    rw [shownFont?, shownFont?, memory, state, context, state]
    cases i.context.live.fontName with
    | none => rfl
    | some name => exact congrArg Found.value? (stays name m)
  funext s
  rw [shownGlyphs, shownGlyphs, font]

end Shows

theorem glyphs_serveAll_shows (stays : r.FontsStay) (strings : List Operand) (i : Interpreter)
    (m : σ) :
    (i.serveAll m (strings.map fun o => .operator r "Tj" [o])).1.flatMap Node.glyphs =
      strings.flatMap fun o => (i.step r "Tj" [o] m).1.1.glyphs := by
  have op : Operation.ofName "Tj" = .textShow .first := rfl
  induction strings generalizing i m with
  | nil => rfl
  | cons o strings ih =>
    have later := ih (i.step r "Tj" [o] m).1.2 (i.step r "Tj" [o] m).2
    simp only [glyphs_step_of_shows r op, shownGlyphs_step_of_shows r op stays] at later
    rw [List.map_cons, List.flatMap_cons, serveAll, serve, Option.toList_some, List.flatMap_append,
      List.flatMap_singleton, later]
    simp only [glyphs_step_of_shows r op]

theorem glyphs_step_array (i : Interpreter) (m : σ) (items rest : List Operand) :
    (i.step r "TJ" (.array items :: rest) m).1.1.glyphs =
      (items.filter fun o => o.bytes?.isSome).flatMap fun o =>
        (i.step r "Tj" [o] m).1.1.glyphs := by
  have array : Operation.ofName "TJ" = .textShow .array := rfl
  have single : Operation.ofName "Tj" = .textShow .first := rfl
  have strings : ∀ items : List Operand, shownStrings? (.array items :: rest) .array =
      some (items.filterMap Operand.bytes?) := fun _ => rfl
  have string : ∀ o : Operand, shownStrings? [o] .first = o.bytes?.map fun s => [s] := fun _ => rfl
  simp only [glyphs_step_of_shows r array, glyphs_step_of_shows r single, strings, string,
    Option.getD_some]
  induction items with
  | nil => rfl
  | cons o items ih =>
    cases bytes : o.bytes? with
    | none => rw [List.filterMap_cons_none bytes, List.filter_cons_of_neg (by simp [bytes]), ih]
    | some s =>
      rw [List.filterMap_cons_some bytes, List.filter_cons_of_pos (by simp [bytes]),
        List.flatMap_cons, List.flatMap_cons, ih, bytes, Option.map_some, Option.getD_some,
        List.flatMap_singleton]

end Interpreter

/-- The glyphs of a text operator are those of its strings, one string after another, each alone:
one glyph for each code, and for a string that does not split into codes none but a warning. `TJ`
shows what `Tj` shows for the strings of its array in the same state. One after another they show
the same as long as a font that is looked up again stays, which is so for the resources of a
document. -/
theorem Node.glyphs_showing_separate :
    (∀ (n : Node) (f : Font) (strings : List Bytes),
      (n.showing f strings).glyphs = strings.flatMap (fun s => (n.showing f [s]).glyphs) ∧
      (∀ s codes, f.readCodes s = .ok codes →
        (n.showing f [s]).glyphs = codes.map f.glyphOfCode) ∧
      (∀ s fault, f.readCodes s = .error fault → (n.showing f [s]).glyphs = []) ∧
      (n.showing f strings).glyphWarnings = (f.undecodable strings).map n.undecodedWarning) ∧
    (∀ {σ : Type} (r : Resources σ) (i : Interpreter) (m : σ) (items rest : List Operand),
      let strings := items.filter fun o => o.bytes?.isSome
      let whole := (i.step r "TJ" (.array items :: rest) m).1.1
      whole.glyphs = strings.flatMap (fun o => (i.step r "Tj" [o] m).1.1.glyphs) ∧
      (r.FontsStay → whole.glyphs =
        (i.serveAll m (strings.map fun o => .operator r "Tj" [o])).1.flatMap Node.glyphs)) ∧
    (∀ (doc : Document) depth scope, (doc.streamResources depth scope).FontsStay) ∧
    ∀ {σ : Type} (table : ResourceTable), (table.resources : Resources σ).FontsStay := by
  refine ⟨fun n f strings => ⟨?_, ?_, ?_, n.glyphWarnings_showing f strings⟩, ?_,
    Document.fontsStay_streamResources, fun {σ} table => table.fontsStay⟩
  · simp only [glyphs_showing, List.flatMap_singleton]
  · intro s codes read
    rw [glyphs_showing, List.flatMap_singleton, Font.decoded_of_ok read]
  · intro s fault broken
    rw [glyphs_showing, List.flatMap_singleton, Font.decoded_of_error broken]
  · intro σ r i m items rest
    have array := Interpreter.glyphs_step_array r i m items rest
    exact ⟨array, fun stays => array.trans (Interpreter.glyphs_serveAll_shows r stays _ i m).symm⟩

open CidCMap (bareFont)

def bareFontTable : ResourceTable where
  fonts := [("F", bareFont)]

def bareFontSelected : Interpreter :=
  (({} : Interpreter).step bareFontTable.resources "Tf" [.name "F", .integer 1] ()).1.2

def spacedStrings : List Operand :=
  [.literal [0, 1, 0, 2], .integer (-120), .hex [7], .name "F", .array [.literal [0, 9]],
    .literal [0, 3]]

theorem Node.glyphs_showing_separate_spacedStrings :
    let r : Resources Unit := bareFontTable.resources
    let whole := (bareFontSelected.step r "TJ" [.array spacedStrings] ()).1.1
    let single := [.literal [0, 1, 0, 2], .hex [7], .literal [0, 3]].map fun o =>
      Request.operator r "Tj" [o]
    r.FontsStay ∧ bareFont.undecodable [[0, 1, 0, 2], [7], [0, 3]] = [(.truncatedCode 2 0, 1)] ∧
      whole.glyphs.map Glyph.code = [1, 2, 3] ∧
      whole.glyphWarnings.map Warning.description =
        ["string 1 could not be decoded: font error: truncated 2-byte character code at offset 0"] ∧
      (bareFontSelected.serveAll () single).1.flatMap Node.glyphs = whole.glyphs := by
  intro r whole single
  obtain ⟨-, shows, -, stays⟩ := Node.glyphs_showing_separate
  obtain ⟨-, sequence⟩ := shows r bareFontSelected () spacedStrings []
  exact ⟨stays bareFontTable, by decide +kernel, by decide +kernel, by decide +kernel,
    (sequence (stays bareFontTable)).symm⟩

end PdfContent
