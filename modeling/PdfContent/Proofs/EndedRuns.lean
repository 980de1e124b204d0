import PdfContent.Proofs.Ink

/-!
Runs that end early, and the lookups of fonts that may end them. A run that is read on only while
its memory says so is a run of the first tokens of its stream, and of all of them where the memory
says so to the end. Only `Tf` and the operators that show text look up a font, one at most.
-/

namespace PdfContent

variable {σ τ : Type}

namespace Reading

theorem foldl_feedWhile_of_ended {goes : σ → Bool} (r : Resources σ) (tokens : List Token)
    {reading : Reading × σ} (h : goes reading.2 = false) :
    tokens.foldl (feedWhile goes r) reading = reading := by
  induction tokens with
  | nil => rfl
  | cons token tokens ih =>
    rw [List.foldl_cons, feedWhile, h]
    exact ih

theorem foldl_feedWhile (goes : σ → Bool) (r : Resources σ) (tokens : List Token)
    (reading : Reading × σ) :
    ∃ read, read <+: tokens ∧
      tokens.foldl (feedWhile goes r) reading = read.foldl (feed r) reading ∧
      (goes (read.foldl (feed r) reading).2 = true → read = tokens) := by
  induction tokens generalizing reading with
  | nil => exact ⟨[], List.prefix_refl _, rfl, fun _ => rfl⟩
  | cons token tokens ih =>
    cases h : goes reading.2 with
    | false =>
      refine ⟨[], List.nil_prefix, foldl_feedWhile_of_ended r (token :: tokens) h, fun goes => ?_⟩
      exact absurd (goes.symm.trans h) (by decide)
    | true =>
      obtain ⟨read, front, same, whole⟩ := ih (feed r reading token)
      refine ⟨token :: read, (List.prefix_cons_inj token).2 front, ?_, fun goes => ?_⟩
      · rw [List.foldl_cons, feedWhile, h]
        exact same
      · rw [whole goes]

/-- Two runs that are fed alike, and that the memories let go on alike, end alike. -/
theorem foldl_feedWhile_of_alike {goes : σ → Bool} {goes' : τ → Bool} {r : Resources σ}
    {r' : Resources τ} {rel : Reading × σ → Reading × τ → Prop}
    (together : ∀ reading reading', rel reading reading' → goes reading.2 = goes' reading'.2)
    (feeds : ∀ reading reading', rel reading reading' →
      ∀ token, rel (feed r reading token) (feed r' reading' token))
    (tokens : List Token) {reading : Reading × σ} {reading' : Reading × τ}
    (h : rel reading reading') :
    rel (tokens.foldl (feedWhile goes r) reading) (tokens.foldl (feedWhile goes' r') reading') := by
  induction tokens generalizing reading reading' with
  | nil => exact h
  | cons token tokens ih =>
    apply ih
    rw [feedWhile, feedWhile, together _ _ h]
    split
    · exact feeds _ _ h token
    · exact h

theorem nodes_prefix_foldl (r : Resources σ) (tokens : List Token) (reading : Reading × σ) :
    reading.1.nodes.toList <+: (tokens.foldl (feed r) reading).1.nodes.toList := by
  induction tokens generalizing reading with
  | nil => exact List.prefix_refl _
  | cons token tokens ih =>
    refine List.IsPrefix.trans ?_ (ih _)
    cases token with
    | operand value => exact List.prefix_refl _
    | stray text => exact List.prefix_refl _
    | operator name =>
      simp only [feed, Array.toList_push]
      exact List.prefix_append _ _

end Reading

namespace Model

theorem ofTokensWhile_eq (goes : σ → Bool) (r : Resources σ) (collectsWarnings : Bool)
    (tokens : List Token) (m : σ) :
    ∃ read, read <+: tokens ∧
      ofTokensWhile goes r collectsWarnings tokens m = ofTokens r collectsWarnings read m ∧
      (goes (ofTokens r collectsWarnings read m).2 = true → read = tokens) := by
  obtain ⟨read, front, same, whole⟩ := Reading.foldl_feedWhile goes r tokens
    ({ interpreter := { collectsWarnings } }, m)
  refine ⟨read, front, ?_, whole⟩
  simp only [ofTokensWhile, ofTokens, same]

theorem nodes_prefix (r : Resources σ) (collectsWarnings : Bool) {read tokens : List Token}
    (front : read <+: tokens) (m : σ) :
    (ofTokens r collectsWarnings read m).1.nodes <+:
      (ofTokens r collectsWarnings tokens m).1.nodes := by
  obtain ⟨rest, rfl⟩ := front
  simp only [ofTokens, List.foldl_append]
  exact Reading.nodes_prefix_foldl r rest _

end Model

/-- The name under which the operator of a node looks up a font: the one that `Tf` selects, or the
one that is selected where text is shown. -/
def Node.askedFont? (n : Node) : Option String :=
  match Operation.ofName n.name with
  | .textFont => (Interpreter.fontSelection? n.operands).map FontSelection.name
  | .textShow _ => n.state.bind GraphicsState.fontName
  | _ => none

theorem Node.ink_askedFont? (n : Node) : n.ink.askedFont? = n.askedFont? := by
  simp only [askedFont?, ink]
  cases Operation.ofName n.name <;> cases n.state <;> rfl

theorem Node.askedFont?_of_paintedName? {n : Node} {name : String}
    (h : n.paintedName? = some name) : n.askedFont? = none := by
  by_cases hn : n.name = "Do"
  · simp only [askedFont?, hn, Operation.ofName_eq_xobject_iff.2]
  · simp only [paintedName?, hn, if_false] at h
    cases h

namespace Interpreter

open Resolving

theorem shownStrings_memory (operands : List Operand) (shown : ShownOperand) (m : σ) :
    (shownStrings operands shown m).memory = m := by
  unfold shownStrings
  cases shownStrings? operands shown <;> rfl

theorem textFont_memory (r : Resources σ) (operands : List Operand) (c : Context) (m : σ) :
    (textFont r operands c m).memory =
      ((fontSelection? operands).map fun font => (r.font font.name m).2).getD m := by
  unfold textFont fontSelection?
  cases operands.head?.bind Operand.name? with
  | none => rfl
  | some name =>
    cases operands[1]?.bind Operand.number? with
    | none => rfl
    | some size => exact lookup_memory "font" r.font name m

theorem selectedFont_memory (r : Resources σ) (gs : GraphicsState) (m : σ) :
    (selectedFont r gs m).memory = (gs.fontName.map fun font => (r.font font m).2).getD m := by
  unfold selectedFont
  cases gs.fontName with
  | none => rfl
  | some font => exact lookup_memory "font" r.font font m

theorem perform_textShow_memory (r : Resources σ) (name : String) (operands : List Operand)
    (c : Context) (shown : ShownOperand) (m : σ) :
    (perform r name operands c (.textShow shown) m).memory =
      (c.live.fontName.map fun font => (r.font font m).2).getD m := by
  change (selectedFont r c.live (shownStrings operands shown m).memory).memory = _
  rw [shownStrings_memory, selectedFont_memory]

/-- `Tf` and the operators that show text do nothing to the memory but look up their font. -/
theorem step_memory_of_font (r : Resources σ) (i : Interpreter) {name : String}
    {operands : List Operand} (m : σ)
    (fonts : Operation.ofName name = .textFont ∨
      ∃ shown, Operation.ofName name = .textShow shown) :
    (i.step r name operands m).2 =
      ((i.step r name operands m).1.1.askedFont?.map fun font => (r.font font m).2).getD m := by
  change (perform r name operands i.context (Operation.ofName name) m).memory = _
  simp only [Node.askedFont?, step_name, step_operands, step_state]
  rcases fonts with op | ⟨shown, op⟩
  · rw [op]
    refine (textFont_memory r operands i.context m).trans ?_
    rw [Option.map_map]
    rfl
  · have live : (i.step r name operands m).1.2.state = i.state := by
      simp only [step, state, op]
      rfl
    simp only [op, takesSnapshot, if_true, Option.bind_some, live]
    exact perform_textShow_memory r name operands i.context shown m

theorem step_memory_of_asked (r : Resources σ) (i : Interpreter) {name font : String}
    {operands : List Operand} {m : σ}
    (h : (i.step r name operands m).1.1.askedFont? = some font) :
    (i.step r name operands m).2 = (r.font font m).2 := by
  have fonts : Operation.ofName name = .textFont ∨
      ∃ shown, Operation.ofName name = .textShow shown := by
    simp only [Node.askedFont?, step_name] at h
    cases op : Operation.ofName name with
    | textFont => exact .inl rfl
    | textShow shown => exact .inr ⟨shown, rfl⟩
    | _ => rw [op] at h; cases h
  rw [step_memory_of_font r i m fonts, h]
  rfl

theorem step_keeps_of_unasked {P : σ → Prop} {r : Resources σ} (hr : r.KeepsApart P)
    (i : Interpreter) {name : String} {operands : List Operand} {m : σ}
    (painted : (i.step r name operands m).1.1.paintedName? = none)
    (asked : (i.step r name operands m).1.1.askedFont? = none) (hm : P m) :
    P (i.step r name operands m).2 := by
  by_cases fonts : Operation.ofName name = .textFont ∨
      ∃ shown, Operation.ofName name = .textShow shown
  · rw [step_memory_of_font r i m fonts, asked]
    exact hm
  · change P (perform r name operands i.context (Operation.ofName name) m).memory
    by_cases hn : name = "Do"
    · simp only [Node.paintedName?, step, hn, if_true] at painted
      rw [Operation.ofName_eq_xobject_iff.2 hn, perform_xobject_memory, painted]
      exact hm
    · have composed := composed_perform r name operands i.context (Operation.ofName name)
      exact composed.keeps (mt Operation.ofName_eq_xobject_iff.1 hn) hr (absurd · fonts) hm

end Interpreter

end PdfContent
