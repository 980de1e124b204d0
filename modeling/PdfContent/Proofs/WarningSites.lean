import PdfContent.Proofs.StateChanges

/-!
Where warnings point. An interpreter counts its operators, and an issue becomes a warning at the
operator that is being read, so every warning names the node that it is about. Only a stray token
is at no operator. What a shown string has wrong is found later, from the place that its node keeps.
-/

namespace PdfContent

variable {σ : Type}

def Token.strayWarning? : Token → Option Warning
  | .stray text => some ⟨.strayToken, s!"stray token '{text}' skipped", none⟩
  | _ => none

def Site.Names (site : Site) (nodes : List Node) : Prop :=
  ∃ n, nodes[site.index]? = some n ∧ n.name = site.operator

namespace Site.Names

variable {site : Site} {nodes : List Node}

theorem lt (h : site.Names nodes) : site.index < nodes.length := by
  obtain ⟨n, found, -⟩ := h
  exact (List.getElem?_eq_some_iff.1 found).1

theorem append (h : site.Names nodes) (more : List Node) : site.Names (nodes ++ more) := by
  obtain ⟨n, found, name⟩ := h
  refine ⟨n, ?_, name⟩
  rw [List.getElem?_append_left (List.getElem?_eq_some_iff.1 found).1, found]

theorem last (nodes : List Node) (n : Node) : Site.Names ⟨nodes.length, n.name⟩ (nodes ++ [n]) :=
  ⟨n, List.getElem?_concat_length, rfl⟩

end Site.Names

namespace Interpreter

variable {r : Resources σ}

def issues (r : Resources σ) (i : Interpreter) (name : String) (operands : List Operand)
    (m : σ) : List Issue :=
  (perform r name operands i.context (Operation.ofName name) m).issues

def newWarnings (r : Resources σ) (i : Interpreter) (name : String) (operands : List Operand)
    (m : σ) : List Warning :=
  (i.issues r name operands m).map (Issue.at · ⟨i.index, name⟩)

theorem step_warnings {i : Interpreter} (collects : i.collectsWarnings = true) (name : String)
    (operands : List Operand) (m : σ) :
    (i.step r name operands m).1.2.warnings.toList =
      i.warnings.toList ++ i.newWarnings r name operands m := by
  simp only [step, collects, if_true, Array.toList_appendList]
  rfl

theorem skipStray_warnings {i : Interpreter} (collects : i.collectsWarnings = true)
    (text : String) : (i.skipStray text).warnings.toList =
      i.warnings.toList ++ (Token.strayWarning? (.stray text)).toList := by
  simp [skipStray, collects, Token.strayWarning?]

theorem newWarnings_spec {i : Interpreter} {name : String} {operands : List Operand} {m : σ}
    {w : Warning} (h : w ∈ i.newWarnings r name operands m) :
    w.site = some ⟨i.index, name⟩ ∧ w.code ∈ WarningCode.ofOperators := by
  obtain ⟨issue, mem, rfl⟩ := List.mem_map.1 h
  have composed := composed_perform r name operands i.context (Operation.ofName name)
  exact ⟨rfl, composed.issues_ofOperators m issue mem⟩

end Interpreter

structure Attributed (tokens : List Token) (nodes : List Node) (warnings : List Warning) :
    Prop where
  numbered : nodes.map Node.index = List.range nodes.length
  sited : ∀ w ∈ warnings, ∀ site ∈ w.site, w.code ∈ WarningCode.ofOperators ∧ site.Names nodes
  strays : warnings.filter (·.site.isNone) = tokens.filterMap Token.strayWarning?
  ordered : (warnings.filterMap Warning.site).Pairwise fun a b => a.index ≤ b.index

namespace Attributed

variable {tokens : List Token} {nodes : List Node} {warnings : List Warning}

theorem start : Attributed [] [] [] where
  numbered := rfl
  sited := by simp
  strays := rfl
  ordered := .nil

theorem index_eq (h : Attributed tokens nodes warnings) {k : Nat} {n : Node}
    (found : nodes[k]? = some n) : n.index = k := by
  have lt := (List.getElem?_eq_some_iff.1 found).1
  have place : (nodes.map Node.index)[k]? = (List.range nodes.length)[k]? := by rw [h.numbered]
  rw [List.getElem?_map, found, List.getElem?_range lt] at place
  exact Option.some.inj place

theorem operand (h : Attributed tokens nodes warnings) (value : Operand) :
    Attributed (tokens ++ [.operand value]) nodes warnings where
  numbered := h.numbered
  sited := h.sited
  strays := by
    rw [List.filterMap_append, ← h.strays]
    exact (List.append_nil _).symm
  ordered := h.ordered

theorem stray (h : Attributed tokens nodes warnings) (text : String) :
    Attributed (tokens ++ [.stray text]) nodes
      (warnings ++ (Token.strayWarning? (.stray text)).toList) where
  numbered := h.numbered
  sited := by
    intro w mem site at_
    rcases List.mem_append.1 mem with old | new
    · exact h.sited w old site at_
    · obtain rfl := List.mem_singleton.1 new
      cases at_
  strays := by
    rw [List.filter_append, List.filterMap_append, h.strays]
    rfl
  ordered := by
    have unsited : (Token.strayWarning? (.stray text)).toList.filterMap Warning.site = [] := rfl
    rw [List.filterMap_append, unsited, List.append_nil]
    exact h.ordered

theorem operator (h : Attributed tokens nodes warnings) (name : String) {n : Node}
    (next : n.index = nodes.length) {added : List Warning}
    (here : ∀ w ∈ added, w.site = some ⟨n.index, n.name⟩ ∧ w.code ∈ WarningCode.ofOperators) :
    Attributed (tokens ++ [.operator name]) (nodes ++ [n]) (warnings ++ added) where
  numbered := by
    simp [h.numbered, next, List.range_succ]
  sited := by
    intro w mem site at_
    rcases List.mem_append.1 mem with old | new
    · obtain ⟨code, names⟩ := h.sited w old site at_
      exact ⟨code, names.append _⟩
    · obtain ⟨place, code⟩ := here w new
      obtain rfl := Option.some.inj (place.symm.trans at_)
      rw [next]
      exact ⟨code, .last nodes n⟩
  strays := by
    have sited : added.filter (·.site.isNone) = [] := by
      rw [List.filter_eq_nil_iff]
      intro w new
      simp [(here w new).1]
    rw [List.filter_append, List.filterMap_append, h.strays, sited]
    rfl
  ordered := by
    have all : ∀ site ∈ added.filterMap Warning.site, site.index = nodes.length := by
      intro site mem
      obtain ⟨w, new, at_⟩ := List.mem_filterMap.1 mem
      obtain rfl := Option.some.inj ((here w new).1.symm.trans at_)
      exact next
    rw [List.filterMap_append, List.pairwise_append]
    refine ⟨h.ordered, ?_, ?_⟩
    · apply List.pairwise_of_forall_mem_list
      intro a ha b hb
      rw [all a ha, all b hb]
    · intro a ha b hb
      obtain ⟨w, old, at_⟩ := List.mem_filterMap.1 ha
      rw [all b hb]
      exact (h.sited w old a at_).2.lt.le

end Attributed

namespace Reading

structure Tracked (tokens : List Token) (reading : Reading) : Prop where
  collects : reading.interpreter.collectsWarnings = true
  count : reading.interpreter.index = reading.nodes.toList.length
  attributed : Attributed tokens reading.nodes.toList reading.interpreter.warnings.toList

variable {r : Resources σ} {tokens : List Token} {reading : Reading × σ}

theorem Tracked.feed (h : Tracked tokens reading.1) (token : Token) :
    Tracked (tokens ++ [token]) (feed r reading token).1 := by
  cases token with
  | operand value => exact ⟨h.collects, h.count, h.attributed.operand value⟩
  | stray text =>
    refine ⟨?_, ?_, ?_⟩
    · simp only [Reading.feed, Interpreter.skipStray, h.collects, if_true]
    · simp only [Reading.feed, Interpreter.skipStray, h.collects, if_true]
      exact h.count
    · simp only [Reading.feed, Interpreter.skipStray_warnings h.collects]
      exact h.attributed.stray text
  | operator name =>
    refine ⟨h.collects, ?_, ?_⟩
    · simp only [Reading.feed, Array.toList_push, List.length_append, List.length_singleton,
        ← h.count]
      rfl
    · simp only [Reading.feed, Array.toList_push, Interpreter.step_warnings h.collects]
      exact h.attributed.operator name h.count fun w new => Interpreter.newWarnings_spec new

theorem tracked_foldl (r : Resources σ) (tokens : List Token) (m : σ) :
    Tracked tokens
      (tokens.foldl (Reading.feed r) ({ interpreter := { collectsWarnings := true } }, m)).1 := by
  induction tokens using List.reverseRecOn with
  | nil => exact ⟨rfl, rfl, .start⟩
  | append_singleton tokens token ih =>
    rw [List.foldl_append]
    exact ih.feed token

end Reading

theorem Node.glyphWarnings_spec {n : Node} {w : Warning} (h : w ∈ n.glyphWarnings) :
    w.site = some ⟨n.index, n.name⟩ ∧ w.code = .glyphDecode ∧ n.isTextShow = true := by
  obtain ⟨⟨result, i⟩, mem, made⟩ := List.mem_filterMap.1 h
  have text : n.isTextShow = true := by
    cases kind : n.kind with
    | textShow font strings => simp [isTextShow, kind]
    | _ =>
      -- Other nodes show nothing.
      simp [shown, kind] at mem
  cases result with
  | ok glyphs => cases made
  | error fault =>
    obtain rfl := Option.some.inj made
    exact ⟨rfl, rfl, text⟩

namespace Attributed

variable {tokens : List Token} {nodes : List Node} {warnings : List Warning} {w : Warning}

theorem glyphWarning (h : Attributed tokens nodes warnings)
    (mem : w ∈ nodes.flatMap Node.glyphWarnings) :
    ∃ site n, w.site = some site ∧ nodes[site.index]? = some n ∧ n.name = site.operator ∧
      w.code = .glyphDecode ∧ n.isTextShow = true := by
  obtain ⟨n, hn, mem⟩ := List.mem_flatMap.1 mem
  obtain ⟨place, code, text⟩ := Node.glyphWarnings_spec mem
  obtain ⟨k, found⟩ := List.mem_iff_getElem?.1 hn
  refine ⟨_, n, place, ?_, rfl, code, text⟩
  rw [h.index_eq found, found]

theorem code_ne_of_sited (h : Attributed tokens nodes warnings) (mem : w ∈ warnings)
    {site : Site} (place : w.site = some site) : w.code ≠ .strayToken ∧ w.code ≠ .glyphDecode := by
  have apart : ∀ code ∈ WarningCode.ofOperators, code ≠ .strayToken ∧ code ≠ .glyphDecode := by
    decide
  exact apart _ (h.sited w mem site place).1

theorem code_of_unsited (h : Attributed tokens nodes warnings) (mem : w ∈ warnings)
    (unsited : w.site = none) : w.code = .strayToken := by
  have kept : w ∈ warnings.filter (·.site.isNone) := by simp [mem, unsited]
  rw [h.strays] at kept
  obtain ⟨token, -, made⟩ := List.mem_filterMap.1 kept
  cases token with
  | stray text =>
    obtain rfl := Option.some.inj made
    rfl
  | operand value => cases made
  | operator name => cases made

end Attributed

namespace Model

/-- In the model of a stream whose warnings are collected, a warning with a site is about the node
there. Those without are the stray tokens, one each. The sites of the stream never go back, and
the undecodable strings, which come last, are about nodes that show text. -/
theorem ofTokens_warnings (r : Resources σ) (tokens : List Token) (m : σ) :
    (∀ w ∈ (ofTokens r true tokens m).1.allWarnings, ∀ site ∈ w.site,
      ∃ n, (ofTokens r true tokens m).1.nodes[site.index]? = some n ∧ n.name = site.operator) ∧
    (ofTokens r true tokens m).1.allWarnings.filter (·.site.isNone) =
      tokens.filterMap Token.strayWarning? ∧
    (∀ w ∈ (ofTokens r true tokens m).1.allWarnings, w.site = none ↔ w.code = .strayToken) ∧
    ((ofTokens r true tokens m).1.warnings.filterMap Warning.site).Pairwise
      (fun a b => a.index ≤ b.index) ∧
    ∀ w ∈ (ofTokens r true tokens m).1.allWarnings, w.code = .glyphDecode →
      ∃ site n, w.site = some site ∧ (ofTokens r true tokens m).1.nodes[site.index]? = some n ∧
        n.isTextShow = true := by
  have tracked : Attributed tokens (ofTokens r true tokens m).1.nodes
      (ofTokens r true tokens m).1.warnings := (Reading.tracked_foldl r tokens m).attributed
  generalize (ofTokens r true tokens m).1 = model at tracked
  refine ⟨?_, ?_, ?_, tracked.ordered, ?_⟩
  · intro w mem site at_
    rcases List.mem_append.1 mem with own | shown
    · exact (tracked.sited w own site at_).2
    · obtain ⟨site', n, place, found, name, -⟩ := tracked.glyphWarning shown
      obtain rfl := Option.some.inj (place.symm.trans at_)
      exact ⟨n, found, name⟩
  · have sited : model.glyphWarnings.filter (·.site.isNone) = [] := by
      rw [List.filter_eq_nil_iff]
      intro w shown
      obtain ⟨site, n, place, -⟩ := tracked.glyphWarning shown
      simp [place]
    rw [allWarnings, List.filter_append, tracked.strays, sited, List.append_nil]
  · intro w mem
    rcases List.mem_append.1 mem with own | shown
    · refine ⟨tracked.code_of_unsited own, fun code => ?_⟩
      rw [Option.eq_none_iff_forall_not_mem]
      intro site place
      exact (tracked.code_ne_of_sited own place).1 code
    · obtain ⟨site, n, place, -, -, code, -⟩ := tracked.glyphWarning shown
      simp [place, code]
  · intro w mem glyph
    rcases List.mem_append.1 mem with own | shown
    · cases place : w.site with
      | none =>
        have code := tracked.code_of_unsited own place
        rw [glyph] at code
        cases code
      | some site => exact absurd glyph (tracked.code_ne_of_sited own place).2
    · obtain ⟨site, n, place, found, -, -, text⟩ := tracked.glyphWarning shown
      exact ⟨site, n, place, found, text⟩

end Model

end PdfContent
