import PdfContent.Proofs.WarningSites

/-!
Nothing that an operator refers to is lost in silence. Each way in which a node can come out
without what it names (no operand for the name, a name that is not found, a lookup that fails, no
font selected) notes an issue, and the warning of it stands at that node.
-/

namespace PdfContent

variable {σ α β : Type}

namespace Resolving

def Reports (lost : α → Prop) (x : Resolving σ α) : Prop :=
  ∀ m, lost (x m).value → (x m).issues ≠ []

variable {lost : α → Prop} {lost' : β → Prop} {x : Resolving σ α} {f : α → Resolving σ β}

theorem reports_pure {a : α} (kept : ¬ lost a) : (pure a : Resolving σ α).Reports lost :=
  fun _ h => absurd h kept

theorem reports_never (never : ∀ a, ¬ lost a) : x.Reports lost := fun _ h => absurd h (never _)

theorem Reports.bind (first : x.Reports lost) (rest : ∀ a, ¬ lost a → (f a).Reports lost') :
    (x >>= f).Reports lost' := by
  intro m h
  rw [bind_issues]
  by_cases own : lost (x m).value
  · exact List.append_ne_nil_of_left_ne_nil (first m own) _
  · exact List.append_ne_nil_of_right_ne_nil _ (rest _ own _ h)

theorem reports_bind (rest : ∀ a, (f a).Reports lost') : (x >>= f).Reports lost' :=
  Reports.bind (reports_never fun _ => not_false) fun a _ => rest a

theorem Reports.bind_some {x : Resolving σ (Option α)} {f : Option α → Resolving σ β}
    (first : x.Reports (· = none)) (rest : ∀ a, (f (some a)).Reports lost') :
    (x >>= f).Reports lost' := by
  refine first.bind fun found kept => ?_
  cases found with
  | none => exact absurd rfl kept
  | some a => exact rest a

theorem reports_note_bind (code : WarningCode) (description : String) (f : Unit → Resolving σ β) :
    (note code description >>= f).Reports lost' := by
  have noted : (note code description : Resolving σ Unit).Reports fun _ => True :=
    fun _ _ => List.cons_ne_nil _ _
  exact noted.bind fun _ kept => absurd trivial kept

theorem reports_lookup (what : String) (find : Lookup σ α) (name : String) :
    (lookup what find name).Reports (· = none) := by
  refine reports_bind fun found => ?_
  split
  · exact reports_pure (Option.some_ne_none _)
  · exact reports_note_bind _ _ _
  · exact reports_note_bind _ _ _

end Resolving

inductive Effect.Lost (e : Effect) : Operation → Prop
  | extGState (none : ∀ name ext, e.kind ≠ .extGState name (some ext)) : Lost e .extGState
  | xobject (none : ∀ name x, e.kind ≠ .xobject name (some x)) : Lost e .xobject
  | shading (none : ∀ shading, e.kind ≠ .shading (some shading)) : Lost e .shading
  | textFont (none : ∀ name size font, e.kind ≠ .textFont name size (some font)) : Lost e .textFont
  | textShow {shown : ShownOperand}
      (none : ∀ font strings, e.kind ≠ .textShow (some font) strings) : Lost e (.textShow shown)
  | dashPattern (none : ∀ dash, e.kind ≠ .dashPattern (some dash)) : Lost e .dashPattern
  | pattern {side : Side} (under : (e.context.live.paint side).colorSpace.isPattern = true)
      (none : (e.context.live.paint side).pattern = none) : Lost e (.colorOrPattern side)

namespace Interpreter

open Resolving

variable {r : Resources σ}

theorem reports_nameOperand (operands : List Operand) :
    (nameOperand operands : Resolving σ (Option String)).Reports (· = none) := by
  unfold nameOperand
  split
  · exact reports_pure (Option.some_ne_none _)
  · exact reports_note_bind _ _ _

theorem reports_dashPattern (operands : List Operand) :
    (dashPattern operands : Resolving σ (Option DashPattern)).Reports (· = none) := by
  unfold dashPattern
  dsimp only
  split
  · exact reports_pure (Option.some_ne_none _)
  · exact reports_note_bind _ _ _

theorem reports_selectedFont (gs : GraphicsState) :
    (selectedFont r gs).Reports (· = none) := by
  unfold selectedFont
  split
  · exact reports_lookup _ _ _
  · exact reports_note_bind _ _ _

theorem reports_extGState (operands : List Operand) (c : Context) :
    (extGState r operands c).Reports fun e => ∀ name ext, e.kind ≠ .extGState name (some ext) := by
  refine (reports_nameOperand operands).bind_some fun name => ?_
  refine (reports_lookup _ _ _).bind_some fun ext => ?_
  exact reports_pure fun none => none _ ext rfl

theorem reports_textFont (operands : List Operand) (c : Context) :
    (textFont r operands c).Reports fun e =>
      ∀ name size font, e.kind ≠ .textFont name size (some font) := by
  unfold textFont
  split
  · refine (reports_lookup _ _ _).bind_some fun font => ?_
    exact reports_pure fun none => none _ _ font rfl
  · exact reports_note_bind _ _ _

theorem reports_textShow (name : String) (operands : List Operand) (c : Context)
    (shown : ShownOperand) :
    (perform r name operands c (.textShow shown)).Reports fun e =>
      ∀ font strings, e.kind ≠ .textShow (some font) strings := by
  refine reports_bind fun strings => (reports_selectedFont c.live).bind_some fun font => ?_
  exact reports_pure fun none => none font strings rfl

theorem reports_selectPattern (side : Side) (operands : List Operand) (gs : GraphicsState) :
    (selectPattern r side operands gs).Reports fun gs' =>
      (gs'.paint side).colorSpace.isPattern = true ∧ (gs'.paint side).pattern = none := by
  unfold selectPattern
  split
  · split
    · exact reports_note_bind _ _ _
    · refine (reports_lookup _ _ _).bind_some fun pattern => reports_pure fun lost => ?_
      cases side <;> cases lost.2
  · rename_i other
    exact reports_pure fun lost => other lost.1

theorem reports_shading (name : String) (operands : List Operand) (c : Context) :
    (perform r name operands c .shading).Reports fun e =>
      ∀ shading, e.kind ≠ .shading (some shading) := by
  refine (reports_nameOperand operands).bind_some fun found => ?_
  refine (reports_lookup _ _ _).bind_some fun shading => ?_
  exact reports_pure fun none => none shading rfl

theorem reports_xobject (name : String) (operands : List Operand) (c : Context) :
    (perform r name operands c .xobject).Reports fun e =>
      ∀ name x, e.kind ≠ .xobject name (some x) := by
  refine (reports_nameOperand operands).bind_some fun found => ?_
  refine (reports_lookup _ _ _).bind_some fun x => ?_
  exact reports_pure fun none => none _ x rfl

theorem reports_perform (r : Resources σ) (name : String) (operands : List Operand) (c : Context)
    (op : Operation) : (perform r name operands c op).Reports fun e => e.Lost op := by
  intro m lost
  cases lost with
  | extGState none => exact reports_extGState operands c m none
  | xobject none => exact reports_xobject name operands c m none
  | shading none => exact reports_shading name operands c m none
  | textFont none => exact reports_textFont operands c m none
  | textShow none => exact reports_textShow name operands c _ m none
  | dashPattern none =>
    have dash : (perform r name operands c .dashPattern).Reports fun e =>
        ∀ dash, e.kind ≠ .dashPattern (some dash) :=
      (reports_dashPattern operands).bind_some fun dash => reports_pure fun none => none dash rfl
    exact dash m none
  | @pattern side under none =>
    have issues := reports_selectPattern (r := r) side operands c.live m ⟨under, none⟩
    exact List.append_ne_nil_of_left_ne_nil issues _

end Interpreter

def Side.patternOperator : Side → String
  | .fill => "scn"
  | .stroke => "SCN"

namespace Operation

theorem ofName_patternOperator (side : Side) :
    ofName side.patternOperator = .colorOrPattern side := by
  cases side <;> rfl

theorem ofName_shows {name : String} (shows : name ∈ ["Tj", "TJ", "'", "\""]) :
    ∃ shown, ofName name = .textShow shown := by
  simp only [List.mem_cons, List.not_mem_nil, or_false] at shows
  obtain rfl | rfl | rfl | rfl := shows
  exacts [⟨_, rfl⟩, ⟨_, rfl⟩, ⟨_, rfl⟩, ⟨_, rfl⟩]

end Operation

/-- A node that lacks what its operator refers to. -/
inductive Node.Unresolved (n : Node) : Prop
  | extGState (name : n.name = "gs") (none : n.linked .extGState = [])
  | xobject (name : n.name = "Do") (none : n.linked .xobject = [])
  | shading (name : n.name = "sh") (none : n.linked .shading = [])
  | selectedFont (name : n.name = "Tf") (none : n.linked .font = [])
  | shownFont (name : n.name ∈ ["Tj", "TJ", "'", "\""]) (none : n.linked .font = [])
  | dashPattern (name : n.name = "d") (none : n.linked .dashArray = [])
  | pattern {side : Side} {s : GraphicsState} (name : n.name = side.patternOperator)
      (state : n.state = some s) (under : (s.paint side).colorSpace.isPattern = true)
      (none : (s.paint side).pattern = none)

namespace Interpreter

variable {r : Resources σ}

theorem step_lost {i : Interpreter} {name : String} {operands : List Operand} {m : σ}
    (h : (i.step r name operands m).1.1.Unresolved) :
    (perform r name operands i.context (Operation.ofName name) m).value.Lost
      (Operation.ofName name) := by
  have own : (i.step r name operands m).1.1.name = name := rfl
  have made : (i.step r name operands m).1.1.kind =
    (perform r name operands i.context (Operation.ofName name) m).value.kind := rfl
  cases h with
  | extGState gs none =>
    obtain rfl := own.symm.trans gs
    refine .extGState fun found ext kind => ?_
    simp [Node.linked, Node.extGState?, made.trans kind] at none
  | xobject paints none =>
    obtain rfl := own.symm.trans paints
    refine .xobject fun found x kind => ?_
    simp [Node.linked, Node.xobject?, made.trans kind] at none
  | shading sh none =>
    obtain rfl := own.symm.trans sh
    refine .shading fun found kind => ?_
    simp [Node.linked, Node.shading?, made.trans kind] at none
  | selectedFont selects none =>
    obtain rfl := own.symm.trans selects
    refine .textFont fun found size font kind => ?_
    simp [Node.linked, Node.font?, made.trans kind] at none
  | shownFont shows none =>
    obtain ⟨shown, op⟩ := Operation.ofName_shows (own ▸ shows)
    rw [op] at made ⊢
    refine .textShow fun font strings kind => ?_
    simp [Node.linked, Node.font?, made.trans kind] at none
  | dashPattern d none =>
    obtain rfl := own.symm.trans d
    refine .dashPattern fun dash kind => ?_
    simp [Node.linked, Node.dashPattern?, made.trans kind] at none
  | @pattern side s selects state under none =>
    obtain rfl := own.symm.trans selects
    have op := Operation.ofName_patternOperator side
    have after : (i.step r side.patternOperator operands m).1.1.state = some
        (perform r side.patternOperator operands i.context (.colorOrPattern side)
          m).value.context.live := by
      simp only [step, op, takesSnapshot, if_true]
    obtain rfl := Option.some.inj (after.symm.trans state)
    rw [op]
    exact .pattern under none

theorem newWarnings_ne_nil {i : Interpreter} {name : String} {operands : List Operand} {m : σ}
    (h : (i.step r name operands m).1.1.Unresolved) : i.newWarnings r name operands m ≠ [] := by
  have issues : i.issues r name operands m ≠ [] :=
    reports_perform r name operands _ _ m (step_lost h)
  intro nil
  exact issues (List.map_eq_nil_iff.1 nil)

end Interpreter

def Reported (nodes : List Node) (warnings : List Warning) : Prop :=
  ∀ n ∈ nodes, n.Unresolved → ∃ w ∈ warnings, w.site = some ⟨n.index, n.name⟩

theorem Reported.append {nodes : List Node} {warnings : List Warning} (h : Reported nodes warnings)
    (added : List Warning) : Reported nodes (warnings ++ added) := by
  intro n mem lost
  obtain ⟨w, old, place⟩ := h n mem lost
  exact ⟨w, List.mem_append_left _ old, place⟩

namespace Reading

variable {r : Resources σ} {reading : Reading × σ}

theorem reported_feed (collects : reading.1.interpreter.collectsWarnings = true)
    (h : Reported reading.1.nodes.toList reading.1.interpreter.warnings.toList) (token : Token) :
    Reported (feed r reading token).1.nodes.toList
      (feed r reading token).1.interpreter.warnings.toList := by
  cases token with
  | operand value => exact h
  | stray text =>
    simp only [feed, Interpreter.skipStray_warnings collects]
    exact h.append _
  | operator name =>
    simp only [feed, Array.toList_push, Interpreter.step_warnings collects]
    intro n mem lost
    rcases List.mem_append.1 mem with old | new
    · exact h.append _ n old lost
    · obtain rfl := List.mem_singleton.1 new
      obtain ⟨w, mem⟩ := List.exists_mem_of_ne_nil _ (Interpreter.newWarnings_ne_nil lost)
      exact ⟨w, List.mem_append_right _ mem, (Interpreter.newWarnings_spec mem).1⟩

theorem reported_foldl (r : Resources σ) (tokens : List Token) (m : σ) :
    Reported
      (tokens.foldl (feed r) ({ interpreter := { collectsWarnings := true } }, m)).1.nodes.toList
      (tokens.foldl (feed r)
        ({ interpreter := { collectsWarnings := true } }, m)).1.interpreter.warnings.toList := by
  induction tokens using List.reverseRecOn with
  | nil => exact fun n mem => absurd mem List.not_mem_nil
  | append_singleton tokens token ih =>
    rw [List.foldl_append]
    exact reported_feed (tracked_foldl r tokens m).collects ih token

end Reading

namespace Model

/-- Every node that comes out without what its operator refers to has a warning at its place. -/
theorem exists_warning_of_unresolved (r : Resources σ) (tokens : List Token) (m : σ) {k : Nat}
    {n : Node} (found : (ofTokens r true tokens m).1.nodes[k]? = some n) (lost : n.Unresolved) :
    ∃ w ∈ (ofTokens r true tokens m).1.warnings, w.site = some ⟨k, n.name⟩ := by
  have reported : Reported (ofTokens r true tokens m).1.nodes
      (ofTokens r true tokens m).1.warnings :=
    Reading.reported_foldl r tokens m
  have index : n.index = k := (Reading.tracked_foldl r tokens m).attributed.index_eq found
  rw [← index]
  exact reported n (List.mem_of_getElem? found) lost

def lostPatternTokens : List Token :=
  [.operand (.name "Pattern"), .operator "CS", .operand (.name "Lost"), .operator "SCN"]

theorem exists_warning_of_lostPattern :
    ∃ w ∈ (ofTokens Resources.empty true lostPatternTokens ()).1.warnings,
      w.site = some ⟨1, "SCN"⟩ := by
  have found : (ofTokens Resources.empty true lostPatternTokens ()).1.nodes[1]? =
      some ⟨1, "SCN", [.name "Lost"], .color .stroke,
        some { stroke := { colorSpace := .pattern none } }⟩ := rfl
  have lost : Node.Unresolved ⟨1, "SCN", [.name "Lost"], .color .stroke,
      some { stroke := { colorSpace := .pattern none } }⟩ :=
    @Node.Unresolved.pattern _ .stroke _ rfl rfl rfl rfl
  exact exists_warning_of_unresolved Resources.empty lostPatternTokens () found lost

end Model

end PdfContent
