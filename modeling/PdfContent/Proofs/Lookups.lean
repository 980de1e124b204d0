import PdfContent.Interpreter

/-!
What interpreting an operator consists of: results, issues of its own and lookups. Only `Do` looks
up an external object, at most one; every other operator keeps what all other lookups keep of the
memory behind the resources.
-/

namespace PdfContent

variable {σ α β : Type}

def Found.value? (found : Found α) : Option α := found.toOption.join

theorem Found.value?_eq_some {found : Found α} {a : α} :
    found.value? = some a ↔ found = .ok (some a) := by
  rcases found with failure | (_ | b)
  · simp [value?, Except.toOption]
  · simp [value?, Except.toOption]
  · simp [value?, Except.toOption]

namespace Resolving

theorem lookup_memory (what : String) (find : Lookup σ α) (name : String) (m : σ) :
    (lookup what find name m).memory = (find name m).2 := by
  rcases h : find name m with ⟨_ | (_ | value), m'⟩ <;>
    simp only [lookup, bind, Resolving.bind, ask, h] <;> rfl

theorem lookup_value (what : String) (find : Lookup σ α) (name : String) (m : σ) :
    (lookup what find name m).value = (find name m).1.value? := by
  rcases h : find name m with ⟨_ | (_ | value), m'⟩ <;>
    simp only [lookup, bind, Resolving.bind, ask, h] <;> rfl

theorem pure_value (a : α) (m : σ) : (pure a : Resolving σ α) m = ⟨a, [], m⟩ := rfl

theorem bind_value (x : Resolving σ α) (f : α → Resolving σ β) (m : σ) :
    ((x >>= f) m).value = (f (x m).value (x m).memory).value := rfl

theorem bind_memory (x : Resolving σ α) (f : α → Resolving σ β) (m : σ) :
    ((x >>= f) m).memory = (f (x m).value (x m).memory).memory := rfl

theorem bind_issues (x : Resolving σ α) (f : α → Resolving σ β) (m : σ) :
    ((x >>= f) m).issues = (x m).issues ++ (f (x m).value (x m).memory).issues := rfl

end Resolving

def WarningCode.ofOperators : List WarningCode :=
  [resourceNotFound, malformedOperand, unsupportedOperator]

namespace Resolving

/-- A computation put together from results, issues of operators and lookups in these resources;
fonts and external objects are looked up only where that is allowed. -/
inductive Composed (r : Resources σ) (fonts objects : Prop) : {α : Type} → Resolving σ α → Prop
  | pure {α : Type} (a : α) : Composed r fonts objects (pure a)
  | bind {α β : Type} {x : Resolving σ α} {f : α → Resolving σ β}
      (first : Composed r fonts objects x) (rest : ∀ a, Composed r fonts objects (f a)) :
      Composed r fonts objects (x >>= f)
  | note {code : WarningCode} (own : code ∈ WarningCode.ofOperators) (description : String) :
      Composed r fonts objects (note code description)
  | colorSpace (name : String) : Composed r fonts objects (ask (r.colorSpace name))
  | font (allowed : fonts) (name : String) : Composed r fonts objects (ask (r.font name))
  | pattern (name : String) : Composed r fonts objects (ask (r.pattern name))
  | shading (name : String) : Composed r fonts objects (ask (r.shading name))
  | extGState (name : String) : Composed r fonts objects (ask (r.extGState name))
  | defaultColorSpace (family : DeviceFamily) :
      Composed r fonts objects (ask (r.defaultColorSpace family))
  | xobject (allowed : objects) (name : String) : Composed r fonts objects (ask (r.xobject name))

variable {r : Resources σ} {fonts objects : Prop}

theorem composed_malformed (description : String) :
    Composed r fonts objects (malformed description) :=
  .note (by decide) description

theorem composed_lookup {find : Lookup σ α} {name : String}
    (asked : Composed r fonts objects (ask (find name))) (what : String) :
    Composed r fonts objects (lookup what find name) := by
  refine asked.bind fun found => ?_
  split
  · exact .pure _
  · exact .bind (.note (by decide) _) fun _ => .pure _
  · exact .bind (.note (by decide) _) fun _ => .pure _

theorem Composed.issues_ofOperators {x : Resolving σ α} (h : Composed r fonts objects x) (m : σ) :
    ∀ issue ∈ (x m).issues, issue.code ∈ WarningCode.ofOperators := by
  induction h generalizing m with
  | bind _ _ first rest =>
    intro issue mem
    rw [bind_issues, List.mem_append] at mem
    cases mem with
    | inl mem => exact first m issue mem
    | inr mem => exact rest _ _ issue mem
  | note own description =>
    intro issue mem
    rw [List.mem_singleton.1 mem]
    exact own
  | _ =>
    intro issue mem
    cases mem

end Resolving

structure Resources.KeepsApart (P : σ → Prop) (r : Resources σ) : Prop where
  colorSpace : ∀ name m, P m → P (r.colorSpace name m).2
  pattern : ∀ name m, P m → P (r.pattern name m).2
  shading : ∀ name m, P m → P (r.shading name m).2
  extGState : ∀ name m, P m → P (r.extGState name m).2
  defaultColorSpace : ∀ family m, P m → P (r.defaultColorSpace family m).2

structure Resources.Keeps (P : σ → Prop) (r : Resources σ) : Prop extends r.KeepsApart P where
  font : ∀ name m, P m → P (r.font name m).2

theorem Resolving.Composed.keeps {P : σ → Prop} {r : Resources σ} {fonts objects : Prop}
    {x : Resolving σ α} (h : Composed r fonts objects x) (none : ¬ objects)
    (keeps : r.KeepsApart P) (font : fonts → ∀ name m, P m → P (r.font name m).2) {m : σ}
    (hm : P m) : P (x m).memory := by
  induction h generalizing m with
  | pure a => exact hm
  | bind _ _ first rest => exact rest _ (first hm)
  | note own description => exact hm
  | colorSpace name => exact keeps.colorSpace name m hm
  | font allowed name => exact font allowed name m hm
  | pattern name => exact keeps.pattern name m hm
  | shading name => exact keeps.shading name m hm
  | extGState name => exact keeps.extGState name m hm
  | defaultColorSpace family => exact keeps.defaultColorSpace family m hm
  | xobject allowed name => exact absurd allowed none

namespace Interpreter

open Resolving

section

variable {r : Resources σ} {fonts objects : Prop}

theorem composed_nameOperand (operands : List Operand) :
    Composed r fonts objects (nameOperand operands) := by
  unfold nameOperand
  split
  · exact .pure _
  · exact (composed_malformed _).bind fun _ => .pure _

theorem composed_deviceSpace (family : DeviceFamily) :
    Composed r fonts objects (deviceSpace r family) := by
  refine (Composed.defaultColorSpace family).bind fun found => ?_
  split
  · exact .pure _
  · exact .pure _
  · exact .bind (.note (by decide) _) fun _ => .pure _

theorem composed_namedColorSpace (operands : List Operand) :
    Composed r fonts objects (namedColorSpace r operands) := by
  refine (composed_nameOperand operands).bind fun name => ?_
  split
  · exact .pure _
  · split
    · exact composed_deviceSpace _
    · split
      · exact .pure _
      · exact (composed_lookup (.colorSpace _) _).bind fun _ => .pure _

theorem composed_selectPattern (side : Side) (operands : List Operand) (gs : GraphicsState) :
    Composed r fonts objects (selectPattern r side operands gs) := by
  unfold selectPattern
  split
  · split
    · exact (composed_malformed _).bind fun _ => .pure _
    · exact (composed_lookup (.pattern _) _).bind fun _ => .pure _
  · exact .pure _

theorem composed_dashPattern (operands : List Operand) :
    Composed r fonts objects (dashPattern operands) := by
  unfold dashPattern
  dsimp only
  split
  · exact .pure _
  · exact (composed_malformed _).bind fun _ => .pure _

theorem composed_matrix (operands : List Operand) : Composed r fonts objects (matrix operands) := by
  unfold matrix
  split
  · exact .pure _
  · exact (composed_malformed _).bind fun _ => .pure _

theorem composed_extGState (operands : List Operand) (c : Context) :
    Composed r fonts objects (extGState r operands c) := by
  refine (composed_nameOperand operands).bind fun name => ?_
  split
  · exact .pure _
  · refine (composed_lookup (.extGState _) _).bind fun ext => ?_
    split <;> exact .pure _

theorem composed_renderingMode (operands : List Operand) :
    Composed r fonts objects (renderingMode operands) := by
  unfold renderingMode
  split
  · exact .pure _
  · exact (composed_malformed _).bind fun _ => .pure _

theorem composed_textFont (allowed : fonts) (operands : List Operand) (c : Context) :
    Composed r fonts objects (textFont r operands c) := by
  unfold textFont
  split
  · exact (composed_lookup (.font allowed _) _).bind fun _ => .pure _
  · exact (composed_malformed _).bind fun _ => .pure _

theorem composed_shownStrings (operands : List Operand) (shown : ShownOperand) :
    Composed r fonts objects (shownStrings operands shown) := by
  unfold shownStrings
  split
  · exact .pure _
  · exact (composed_malformed _).bind fun _ => .pure _

theorem composed_selectedFont (allowed : fonts) (gs : GraphicsState) :
    Composed r fonts objects (selectedFont r gs) := by
  unfold selectedFont
  split
  · exact composed_lookup (.font allowed _) _
  · exact .bind (.note (by decide) _) fun _ => .pure _

theorem composed_inlineNamedSpace (name : String) :
    Composed r fonts objects (inlineNamedSpace r name) := by
  unfold inlineNamedSpace
  split
  · split
    · exact (composed_deviceSpace _).bind fun _ => .pure _
    · exact .pure _
  · exact composed_lookup (.colorSpace _) _

theorem composed_inlineColorSpace (operand : Operand) :
    Composed r fonts objects (inlineColorSpace r operand) := by
  fun_induction inlineColorSpace r operand with
  | case1 name => exact composed_inlineNamedSpace name
  | case2 family base rest hi ih =>
    refine ih.bind fun space => ?_
    split <;> exact .pure _
  | case3 family base rest hi => exact (composed_malformed _).bind fun _ => .pure _
  | case4 items hne hi => exact .pure _
  | case5 items hne hi => exact (composed_malformed _).bind fun _ => .pure _
  | case6 => exact .pure _

theorem composed_inlineImage (operands : List Operand) (c : Context) :
    Composed r fonts objects (inlineImage r operands c) := by
  unfold inlineImage
  dsimp only
  split
  · exact (composed_inlineColorSpace _).bind fun _ => .pure _
  · exact (Composed.pure _).bind fun _ => .pure _

/-- Only `Tf` and the operators that show text look up fonts, and only `Do` external objects. -/
theorem composed_perform (r : Resources σ) (name : String) (operands : List Operand) (c : Context)
    (op : Operation) : Composed r (op = .textFont ∨ ∃ shown, op = .textShow shown)
      (op = .xobject) (perform r name operands c op) := by
  cases op with
  | dashPattern => exact (composed_dashPattern operands).bind fun _ => .pure _
  | extGState => exact composed_extGState operands c
  | transform => exact (composed_matrix operands).bind fun _ => .pure _
  | deviceColor side family => exact (composed_deviceSpace family).bind fun _ => .pure _
  | colorSpace side => exact (composed_namedColorSpace operands).bind fun _ => .pure _
  | colorOrPattern side => exact (composed_selectPattern side operands _).bind fun _ => .pure _
  | renderingMode => exact (composed_renderingMode operands).bind fun _ => .pure _
  | textFont => exact composed_textFont (.inl rfl) operands c
  | textShow shown =>
    exact (composed_shownStrings operands shown).bind fun _ =>
      (composed_selectedFont (.inr ⟨shown, rfl⟩) _).bind fun _ => .pure _
  | endImage => exact (composed_inlineImage operands c).bind fun _ => .pure _
  | shading =>
    refine (composed_nameOperand operands).bind fun found => ?_
    split
    · exact (composed_lookup (.shading _) _).bind fun _ => .pure _
    · exact .pure _
  | xobject =>
    refine (composed_nameOperand operands).bind fun found => ?_
    dsimp only
    split
    · exact (composed_lookup (.xobject rfl _) _).bind fun _ => .pure _
    · exact (Composed.pure _).bind fun _ => .pure _
  | unknown =>
    simp only [perform]
    split
    · exact .bind (.note (by decide) _) fun _ => .pure _
    · exact (Composed.pure _).bind fun _ => .pure _
  | _ => exact .pure _

end

theorem nameOperand_value (operands : List Operand) (m : σ) :
    (nameOperand operands m).value = operands.head?.bind Operand.name? := by
  unfold nameOperand
  cases operands.head?.bind Operand.name? <;> rfl

theorem nameOperand_memory (operands : List Operand) (m : σ) :
    (nameOperand operands m).memory = m := by
  unfold nameOperand
  cases operands.head?.bind Operand.name? <;> rfl

theorem perform_xobject_live (r : Resources σ) (name : String) (operands : List Operand)
    (c : Context) (m : σ) :
    (perform r name operands c .xobject m).value.context.live.xobject =
      (operands.head?.bind Operand.name?).bind fun found => (r.xobject found m).1.value? := by
  simp only [perform, bind_value, nameOperand_value, nameOperand_memory]
  cases operands.head?.bind Operand.name? with
  | none => rfl
  | some found => exact lookup_value "XObject" r.xobject found m

theorem perform_xobject_memory (r : Resources σ) (name : String) (operands : List Operand)
    (c : Context) (m : σ) :
    (perform r name operands c .xobject m).memory =
      match operands.head?.bind Operand.name? with
      | some found => (r.xobject found m).2
      | none => m := by
  simp only [perform, bind_memory, nameOperand_value, nameOperand_memory]
  cases operands.head?.bind Operand.name? with
  | none => rfl
  | some found => exact lookup_memory "XObject" r.xobject found m

end Interpreter

def Node.paintedName? (n : Node) : Option String :=
  if n.name = "Do" then n.operands.head?.bind Operand.name? else none

def Node.painted? (n : Node) : Option XObject :=
  if n.name = "Do" then n.state.bind GraphicsState.xobject else none

namespace Operation

theorem mem_table_of_ofName {name : String} (h : ofName name ≠ unknown) :
    (name, ofName name) ∈ table := by
  unfold ofName at h ⊢
  cases hl : table.lookup name with
  | none => simp [hl] at h
  | some op =>
    obtain ⟨front, rest, ht, -⟩ := List.lookup_eq_some_iff.1 hl
    simp [ht]

theorem ofName_eq_iff {name spelling : String} {op : Operation} (known : op ≠ unknown)
    (listed : ofName spelling = op) (alone : ∀ entry ∈ table, entry.2 = op → entry.1 = spelling) :
    ofName name = op ↔ name = spelling := by
  constructor
  · intro h
    have hm : (name, ofName name) ∈ table := mem_table_of_ofName (h ▸ known)
    exact alone _ hm h
  · rintro rfl
    exact listed

theorem ofName_eq_xobject_iff {name : String} : ofName name = xobject ↔ name = "Do" :=
  ofName_eq_iff (by decide) (by decide) (by decide)

theorem ofName_eq_save_iff {name : String} : ofName name = save ↔ name = "q" :=
  ofName_eq_iff (by decide) (by decide) (by decide)

theorem ofName_eq_restore_iff {name : String} : ofName name = restore ↔ name = "Q" :=
  ofName_eq_iff (by decide) (by decide) (by decide)

end Operation

namespace Interpreter

theorem step_painted? (r : Resources σ) (i : Interpreter) (name : String)
    (operands : List Operand) (m : σ) :
    (i.step r name operands m).1.1.painted? =
      (i.step r name operands m).1.1.paintedName?.bind fun found =>
        (r.xobject found m).1.value? := by
  by_cases hn : name = "Do"
  · have hop := Operation.ofName_eq_xobject_iff.2 hn
    simp only [Node.painted?, Node.paintedName?, step, hn, if_true]
    subst hn
    rw [hop, ← perform_xobject_live r "Do" operands i.context m]
    rfl
  · simp only [Node.painted?, Node.paintedName?, step, hn, if_false, Option.bind_none]

theorem step_memory_of_painted (r : Resources σ) (i : Interpreter) {name found : String}
    {operands : List Operand} {m : σ}
    (h : (i.step r name operands m).1.1.paintedName? = some found) :
    (i.step r name operands m).2 = (r.xobject found m).2 := by
  by_cases hn : name = "Do"
  · simp only [Node.paintedName?, step, hn, if_true] at h
    change (perform r name operands i.context (Operation.ofName name) m).memory = _
    rw [Operation.ofName_eq_xobject_iff.2 hn, perform_xobject_memory, h]
  · simp only [Node.paintedName?, step, hn, if_false] at h
    cases h

theorem step_keeps {P : σ → Prop} {r : Resources σ} (hr : r.Keeps P) (i : Interpreter)
    {name : String} {operands : List Operand} {m : σ}
    (h : (i.step r name operands m).1.1.paintedName? = none) (hm : P m) :
    P (i.step r name operands m).2 := by
  change P (perform r name operands i.context (Operation.ofName name) m).memory
  by_cases hn : name = "Do"
  · simp only [Node.paintedName?, step, hn, if_true] at h
    rw [Operation.ofName_eq_xobject_iff.2 hn, perform_xobject_memory, h]
    exact hm
  · have composed := composed_perform r name operands i.context (Operation.ofName name)
    exact composed.keeps (mt Operation.ofName_eq_xobject_iff.1 hn) hr.toKeepsApart
      (fun _ => hr.font) hm

end Interpreter

end PdfContent
