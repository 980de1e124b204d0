import PdfContent.Proofs.EndedRuns
import PdfContent.Proofs.Lookups

/-!
The same computation over two resources. Where lookups find the same in both and their memories stay
related, every operation that only reads operands and looks names up gives the same, with the same
issues. What parameter dictionaries set is left open first; where they agree too, whole runs do.
-/

namespace PdfContent

variable {σ τ α β α' β' : Type}

/-- Two lookups find the same wherever their memories are related, and keep these related. -/
def SameFind (rel : σ → τ → Prop) (find : σ → Found α × σ) (find' : τ → Found α × τ) : Prop :=
  ∀ m m', rel m m' → (find m).1 = (find' m').1 ∧ rel (find m).2 (find' m').2

/-- Two resources that agree on everything but parameter dictionaries. -/
structure Resources.Agree (rel : σ → τ → Prop) (r : Resources σ) (r' : Resources τ) : Prop where
  colorSpace : ∀ name, SameFind rel (r.colorSpace name) (r'.colorSpace name)
  font : ∀ name, SameFind rel (r.font name) (r'.font name)
  pattern : ∀ name, SameFind rel (r.pattern name) (r'.pattern name)
  shading : ∀ name, SameFind rel (r.shading name) (r'.shading name)
  xobject : ∀ name, SameFind rel (r.xobject name) (r'.xobject name)
  defaultColorSpace : ∀ family,
    SameFind rel (r.defaultColorSpace family) (r'.defaultColorSpace family)

structure Outcome.Alike (rel : σ → τ → Prop) (same : α → α' → Prop) (o : Outcome σ α)
    (o' : Outcome τ α') : Prop where
  value : same o.value o'.value
  issues : o.issues = o'.issues
  memory : rel o.memory o'.memory

namespace Resolving

def Alike (rel : σ → τ → Prop) (same : α → α' → Prop) (x : Resolving σ α) (y : Resolving τ α') :
    Prop :=
  ∀ m m', rel m m' → (x m).Alike rel same (y m')

variable {rel : σ → τ → Prop}

theorem alike_pure {same : α → α' → Prop} {a : α} {a' : α'} (h : same a a') :
    Alike rel same (pure a) (pure a') :=
  fun _ _ hm => ⟨h, rfl, hm⟩

theorem Alike.bind {same : α → α' → Prop} {same' : β → β' → Prop} {x : Resolving σ α}
    {y : Resolving τ α'} {f : α → Resolving σ β} {g : α' → Resolving τ β'} (h : Alike rel same x y)
    (rest : ∀ a a', same a a' → Alike rel same' (f a) (g a')) :
    Alike rel same' (x >>= f) (y >>= g) := by
  intro m m' hm
  have first := h m m' hm
  have second := rest _ _ first.value _ _ first.memory
  refine ⟨second.value, ?_, second.memory⟩
  rw [bind_issues, bind_issues, first.issues, second.issues]

theorem Alike.bind_eq {same : β → β' → Prop} {x : Resolving σ α} {y : Resolving τ α}
    {f : α → Resolving σ β} {g : α → Resolving τ β'} (h : Alike rel Eq x y)
    (rest : ∀ a, Alike rel same (f a) (g a)) : Alike rel same (x >>= f) (y >>= g) :=
  h.bind fun a _ ha => ha ▸ rest a

theorem alike_note (code : WarningCode) (description : String) :
    Alike rel Eq (note code description) (note code description) :=
  fun _ _ hm => ⟨rfl, rfl, hm⟩

theorem alike_malformed (description : String) :
    Alike rel Eq (malformed description) (malformed description) :=
  alike_note .malformedOperand description

theorem alike_ask {find : σ → Found α × σ} {find' : τ → Found α × τ} (h : SameFind rel find find') :
    Alike rel Eq (ask find) (ask find') := by
  intro m m' hm
  obtain ⟨found, memory⟩ := h m m' hm
  exact ⟨found, rfl, memory⟩

theorem alike_lookup {find : Lookup σ α} {find' : Lookup τ α} {name : String}
    (h : SameFind rel (find name) (find' name)) (what : String) :
    Alike rel Eq (lookup what find name) (lookup what find' name) := by
  refine (alike_ask h).bind_eq fun found => ?_
  split
  · exact alike_pure rfl
  · exact (alike_note _ _).bind_eq fun _ => alike_pure rfl
  · exact (alike_note _ _).bind_eq fun _ => alike_pure rfl

end Resolving

namespace Interpreter

open Resolving

variable {rel : σ → τ → Prop} {r : Resources σ} {r' : Resources τ}

theorem alike_nameOperand (operands : List Operand) :
    Alike rel Eq (nameOperand operands) (nameOperand operands) := by
  unfold nameOperand
  split
  · exact alike_pure rfl
  · exact (alike_malformed _).bind_eq fun _ => alike_pure rfl

theorem alike_dashPattern (operands : List Operand) :
    Alike rel Eq (dashPattern operands) (dashPattern operands) := by
  unfold dashPattern
  dsimp only
  split
  · exact alike_pure rfl
  · exact (alike_malformed _).bind_eq fun _ => alike_pure rfl

theorem alike_matrix (operands : List Operand) :
    Alike rel Eq (matrix operands) (matrix operands) := by
  unfold matrix
  split
  · exact alike_pure rfl
  · exact (alike_malformed _).bind_eq fun _ => alike_pure rfl

theorem alike_renderingMode (operands : List Operand) :
    Alike rel Eq (renderingMode operands) (renderingMode operands) := by
  unfold renderingMode
  split
  · exact alike_pure rfl
  · exact (alike_malformed _).bind_eq fun _ => alike_pure rfl

theorem alike_shownStrings (operands : List Operand) (shown : ShownOperand) :
    Alike rel Eq (shownStrings operands shown) (shownStrings operands shown) := by
  unfold shownStrings
  split
  · exact alike_pure rfl
  · exact (alike_malformed _).bind_eq fun _ => alike_pure rfl

section Agree

variable (agree : r.Agree rel r')

include agree

theorem alike_deviceSpace (family : DeviceFamily) :
    Alike rel Eq (deviceSpace r family) (deviceSpace r' family) := by
  refine (alike_ask (agree.defaultColorSpace family)).bind_eq fun found => ?_
  split
  · exact alike_pure rfl
  · exact alike_pure rfl
  · exact (alike_note _ _).bind_eq fun _ => alike_pure rfl

theorem alike_namedColorSpace (operands : List Operand) :
    Alike rel Eq (namedColorSpace r operands) (namedColorSpace r' operands) := by
  refine (alike_nameOperand operands).bind_eq fun name => ?_
  split
  · exact alike_pure rfl
  · split
    · exact alike_deviceSpace agree _
    · split
      · exact alike_pure rfl
      · exact (alike_lookup (agree.colorSpace _) _).bind_eq fun _ => alike_pure rfl

theorem alike_inlineNamedSpace (name : String) :
    Alike rel Eq (inlineNamedSpace r name) (inlineNamedSpace r' name) := by
  unfold inlineNamedSpace
  split
  · split
    · exact (alike_deviceSpace agree _).bind_eq fun _ => alike_pure rfl
    · exact alike_pure rfl
  · exact alike_lookup (agree.colorSpace _) _

theorem alike_inlineColorSpace (operand : Operand) :
    Alike rel Eq (inlineColorSpace r operand) (inlineColorSpace r' operand) := by
  fun_induction inlineColorSpace r operand with
  | case1 name =>
    rw [inlineColorSpace]
    exact alike_inlineNamedSpace agree name
  | case2 family base rest hi ih =>
    rw [inlineColorSpace, if_pos hi]
    refine ih.bind_eq fun space => ?_
    split <;> exact alike_pure rfl
  | case3 family base rest hi =>
    rw [inlineColorSpace, if_neg hi]
    exact (alike_malformed _).bind_eq fun _ => alike_pure rfl
  | case4 items hne hi =>
    rw [inlineColorSpace, if_pos hi]
    · exact alike_pure rfl
    · exact hne
  | case5 items hne hi =>
    rw [inlineColorSpace, if_neg hi]
    · exact (alike_malformed _).bind_eq fun _ => alike_pure rfl
    · exact hne
  | case6 operand not_name not_cons not_array =>
    rw [inlineColorSpace]
    · exact alike_pure rfl
    · exact not_name
    · exact not_cons
    · exact not_array

theorem alike_inlineImage (operands : List Operand) {c c' : Context}
    (pending : c.pendingImage = c'.pendingImage) :
    Alike rel Eq (inlineImage r operands c) (inlineImage r' operands c') := by
  unfold inlineImage
  rw [pending]
  dsimp only
  split
  · exact (alike_inlineColorSpace agree _).bind_eq fun _ => alike_pure rfl
  · exact Alike.bind_eq (alike_pure rfl) fun _ => alike_pure rfl

theorem alike_selectedFont {gs gs' : GraphicsState} (name : gs.fontName = gs'.fontName) :
    Alike rel Eq (selectedFont r gs) (selectedFont r' gs') := by
  unfold selectedFont
  rw [name]
  split
  · exact alike_lookup (agree.font _) _
  · exact (alike_note _ _).bind_eq fun _ => alike_pure rfl

end Agree

end Interpreter

structure Resources.AgreeAll (rel : σ → τ → Prop) (r : Resources σ) (r' : Resources τ) : Prop
    extends Resources.Agree rel r r' where
  extGState : ∀ name, SameFind rel (r.extGState name) (r'.extGState name)

section AgreeAll

variable {rel : σ → τ → Prop} {r : Resources σ} {r' : Resources τ} (agree : r.AgreeAll rel r')

include agree

namespace Interpreter

open Resolving

theorem alike_perform_of_agreeAll (name : String) (operands : List Operand) (c : Context)
    (op : Operation) :
    Alike rel Eq (perform r name operands c op) (perform r' name operands c op) := by
  cases op with
  | dashPattern => exact (alike_dashPattern operands).bind_eq fun _ => alike_pure rfl
  | extGState =>
    refine (alike_nameOperand operands).bind_eq fun found => ?_
    split
    · exact alike_pure rfl
    · refine (alike_lookup (agree.extGState _) _).bind_eq fun ext => ?_
      split <;> exact alike_pure rfl
  | transform => exact (alike_matrix operands).bind_eq fun _ => alike_pure rfl
  | deviceColor side family =>
    exact (alike_deviceSpace agree.toAgree family).bind_eq fun _ => alike_pure rfl
  | colorSpace side =>
    exact (alike_namedColorSpace agree.toAgree operands).bind_eq fun _ => alike_pure rfl
  | colorOrPattern side =>
    refine Alike.bind_eq ?_ fun _ => alike_pure rfl
    unfold selectPattern
    split
    · split
      · exact (alike_malformed _).bind_eq fun _ => alike_pure rfl
      · exact (alike_lookup (agree.pattern _) _).bind_eq fun _ => alike_pure rfl
    · exact alike_pure rfl
  | renderingMode => exact (alike_renderingMode operands).bind_eq fun _ => alike_pure rfl
  | textFont =>
    simp only [perform, textFont]
    split
    · exact (alike_lookup (agree.font _) _).bind_eq fun _ => alike_pure rfl
    · exact (alike_malformed _).bind_eq fun _ => alike_pure rfl
  | textShow shown =>
    exact (alike_shownStrings operands shown).bind_eq fun _ =>
      (alike_selectedFont agree.toAgree rfl).bind_eq fun _ => alike_pure rfl
  | endImage =>
    exact (alike_inlineImage agree.toAgree operands rfl).bind_eq fun _ => alike_pure rfl
  | shading =>
    refine (alike_nameOperand operands).bind_eq fun found => ?_
    split
    · exact (alike_lookup (agree.shading _) _).bind_eq fun _ => alike_pure rfl
    · exact alike_pure rfl
  | xobject =>
    refine (alike_nameOperand operands).bind_eq fun found => ?_
    dsimp only
    split
    · exact (alike_lookup (agree.xobject _) _).bind_eq fun _ => alike_pure rfl
    · exact Alike.bind_eq (alike_pure rfl) fun _ => alike_pure rfl
  | unknown =>
    simp only [perform]
    split
    · exact (alike_note _ _).bind_eq fun _ => alike_pure rfl
    · exact alike_pure rfl
  | _ => exact alike_pure rfl

theorem step_of_agreeAll (i : Interpreter) (name : String) (operands : List Operand) {m : σ}
    {m' : τ} (hm : rel m m') :
    (i.step r name operands m).1 = (i.step r' name operands m').1 ∧
      rel (i.step r name operands m).2 (i.step r' name operands m').2 := by
  have outcome := alike_perform_of_agreeAll agree name operands i.context (Operation.ofName name)
    m m' hm
  refine ⟨?_, outcome.memory⟩
  simp only [step, outcome.value, outcome.issues]

end Interpreter

theorem Reading.feed_of_agreeAll {reading : Reading × σ} {reading' : Reading × τ}
    (h : reading.1 = reading'.1 ∧ rel reading.2 reading'.2) (token : Token) :
    (feed r reading token).1 = (feed r' reading' token).1 ∧
      rel (feed r reading token).2 (feed r' reading' token).2 := by
  obtain ⟨same, memory⟩ := h
  cases token with
  | operand value => exact ⟨by simp only [feed, same], memory⟩
  | stray text => exact ⟨by simp only [feed, same], memory⟩
  | operator name =>
    obtain ⟨step, memory⟩ := Interpreter.step_of_agreeAll agree reading'.1.interpreter name
      reading'.1.operands.toList memory
    simp only [feed, same, step]
    exact ⟨trivial, memory⟩

/-- Resources that agree on everything lead to the same model, for as long as the memories go on
alike. -/
theorem Model.ofTokensWhile_of_agreeAll {goes : σ → Bool} {goes' : τ → Bool}
    (together : ∀ m m', rel m m' → goes m = goes' m') (collectsWarnings : Bool)
    (tokens : List Token) {m : σ} {m' : τ} (hm : rel m m') :
    (ofTokensWhile goes r collectsWarnings tokens m).1 =
        (ofTokensWhile goes' r' collectsWarnings tokens m').1 ∧
      rel (ofTokensWhile goes r collectsWarnings tokens m).2
        (ofTokensWhile goes' r' collectsWarnings tokens m').2 := by
  let start : Reading := { interpreter := { collectsWarnings } }
  let alike (reading : Reading × σ) (reading' : Reading × τ) : Prop :=
    reading.1 = reading'.1 ∧ rel reading.2 reading'.2
  have feeds : ∀ reading reading', alike reading reading' →
      ∀ token, alike (Reading.feed r reading token) (Reading.feed r' reading' token) :=
    fun reading reading' h => Reading.feed_of_agreeAll agree h
  have started : alike (start, m) (start, m') := ⟨rfl, hm⟩
  obtain ⟨same, memory⟩ := Reading.foldl_feedWhile_of_alike
    (fun reading reading' h => together _ _ h.2) feeds tokens started
  exact ⟨congrArg Reading.model same, memory⟩

end AgreeAll

end PdfContent
