import Mathlib.Data.List.Infix
import PdfContent.Proofs.Ink

/-!
Runs of operators, and the states saved below a block of them. Only `q` and `Q` touch the saved
states, one at the top each time, so a block that never restores more than it saved cannot reach
what was saved before it.
-/

namespace PdfContent

structure Command where
  name : String
  operands : List Operand := []

namespace Command

def saves (commands : List Command) : Nat := commands.countP (·.name == "q")

def restores (commands : List Command) : Nat := commands.countP (·.name == "Q")

/-- Every state a block restores is one that it saved, and it restores them all. -/
structure Balanced (block : List Command) : Prop where
  within : ∀ front, front <+: block → restores front ≤ saves front
  even : restores block = saves block

theorem balanced_iff (block : List Command) :
    Balanced block ↔
      (∀ front ∈ block.inits, restores front ≤ saves front) ∧ restores block = saves block := by
  constructor
  · intro h
    exact ⟨fun front hf => h.within front ((List.mem_inits _ _).1 hf), h.even⟩
  · intro h
    exact ⟨fun front hf => h.1 front ((List.mem_inits _ _).2 hf), h.2⟩

instance (block : List Command) : Decidable (Balanced block) :=
  decidable_of_iff' _ (balanced_iff block)

theorem saves_cons (c : Command) (rest : List Command) :
    saves (c :: rest) = saves rest + if c.name = "q" then 1 else 0 := by
  simp [saves, List.countP_cons]

theorem restores_cons (c : Command) (rest : List Command) :
    restores (c :: rest) = restores rest + if c.name = "Q" then 1 else 0 := by
  simp [restores, List.countP_cons]

end Command

namespace Interpreter

open Resolving

variable {σ : Type} {r : Resources σ}

def runCommand (r : Resources σ) (state : Interpreter × σ) (c : Command) : Interpreter × σ :=
  let step := state.1.step r c.name c.operands state.2
  (step.1.2, step.2)

def run (r : Resources σ) (state : Interpreter × σ) (commands : List Command) : Interpreter × σ :=
  commands.foldl (runCommand r) state

theorem run_append (r : Resources σ) (state : Interpreter × σ) (front rest : List Command) :
    run r state (front ++ rest) = run r (run r state front) rest :=
  List.foldl_append

theorem textFont_saved (r : Resources σ) (operands : List Operand) (c : Context) (m : σ) :
    (textFont r operands c m).value.context.stack.saved = c.stack.saved := by
  unfold textFont
  cases operands.head?.bind Operand.name? with
  | none => rfl
  | some name => cases operands[1]?.bind Operand.number? <;> rfl

theorem extGState_saved (r : Resources σ) (operands : List Operand) (c : Context) (m : σ) :
    (extGState r operands c m).value.context.stack.saved = c.stack.saved := by
  rw [extGState_stack]
  split <;> rfl

theorem perform_saved (r : Resources σ) (name : String) (operands : List Operand) (c : Context)
    {op : Operation} (save : op ≠ .save) (restore : op ≠ .restore) (m : σ) :
    (perform r name operands c op m).value.context.stack.saved = c.stack.saved := by
  cases op with
  | save => exact absurd rfl save
  | restore => exact absurd rfl restore
  | extGState => exact extGState_saved r operands c m
  | textFont => exact textFont_saved r operands c m
  | shading =>
    simp only [perform, bind_value, nameOperand_value]
    cases operands.head?.bind Operand.name? <;> rfl
  | xobject =>
    simp only [perform, bind_value, nameOperand_value]
    cases operands.head?.bind Operand.name? <;> rfl
  | unknown => rw [perform_unknown_context]
  | _ => rfl

theorem runCommand_save {c : Command} (h : c.name = "q") (state : Interpreter × σ) :
    (runCommand r state c).1.context.stack = state.1.context.stack.save := by
  have hop : Operation.ofName c.name = .save := Operation.ofName_eq_save_iff.2 h
  simp only [runCommand, step, hop]
  rfl

theorem runCommand_restore {c : Command} (h : c.name = "Q") (state : Interpreter × σ) :
    (runCommand r state c).1.context.stack = state.1.context.stack.restore := by
  have hop : Operation.ofName c.name = .restore := Operation.ofName_eq_restore_iff.2 h
  simp only [runCommand, step, hop]
  rfl

theorem runCommand_saved {c : Command} (save : c.name ≠ "q") (restore : c.name ≠ "Q")
    (state : Interpreter × σ) :
    (runCommand r state c).1.context.stack.saved = state.1.context.stack.saved :=
  perform_saved r c.name c.operands state.1.context (mt Operation.ofName_eq_save_iff.1 save)
    (mt Operation.ofName_eq_restore_iff.1 restore) state.2

/-- While no more is restored than was saved above them, the states at the bottom stay, and above
them stand as many as are still to be restored. -/
theorem run_saved_below (base : List GraphicsState) (block : List Command)
    {above : List GraphicsState} {state : Interpreter × σ}
    (saved : state.1.context.stack.saved = above ++ base)
    (within : ∀ front, front <+: block →
      Command.restores front ≤ Command.saves front + above.length) :
    ∃ above', (run r state block).1.context.stack.saved = above' ++ base ∧
      above'.length + Command.restores block = above.length + Command.saves block := by
  induction block generalizing above state with
  | nil => exact ⟨above, saved, rfl⟩
  | cons c rest ih =>
    have hfront : ∀ front, front <+: rest →
        Command.restores (c :: front) ≤ Command.saves (c :: front) + above.length :=
      fun front hf => within (c :: front) (List.cons_prefix_cons.2 ⟨rfl, hf⟩)
    simp only [Command.saves_cons, Command.restores_cons] at hfront ⊢
    by_cases hq : c.name = "q"
    · have hQ : c.name ≠ "Q" := by rw [hq]; decide
      simp only [if_pos hq, if_neg hQ] at hfront ⊢
      have hs : (runCommand r state c).1.context.stack.saved =
          (state.1.context.stack.live :: above) ++ base := by
        rw [runCommand_save hq, StateStack.save, saved]
        rfl
      obtain ⟨above', hr, hn⟩ := ih hs fun front hf => by
        have := hfront front hf
        rw [List.length_cons]
        omega
      refine ⟨above', hr, ?_⟩
      rw [List.length_cons] at hn
      omega
    · by_cases hQ : c.name = "Q"
      · simp only [if_pos hQ, if_neg hq] at hfront ⊢
        cases above with
        | nil =>
          -- The block would restore a state saved before it.
          have := hfront [] (List.nil_prefix)
          simp [Command.restores, Command.saves] at this
        | cons top above =>
          have hs : (runCommand r state c).1.context.stack.saved = above ++ base := by
            rw [runCommand_restore hQ, StateStack.restore, saved]
            rfl
          simp only [List.length_cons] at hfront ⊢
          obtain ⟨above', hr, hn⟩ := ih hs fun front hf => by
            have := hfront front hf
            omega
          exact ⟨above', hr, by omega⟩
      · simp only [if_neg hq, if_neg hQ] at hfront ⊢
        exact ih ((runCommand_saved hq hQ state).trans saved) hfront

theorem run_saved_of_balanced {block : List Command} (h : Command.Balanced block)
    (state : Interpreter × σ) :
    (run r state block).1.context.stack.saved = state.1.context.stack.saved := by
  have none : state.1.context.stack.saved = [] ++ state.1.context.stack.saved := rfl
  obtain ⟨above, hs, hn⟩ := run_saved_below (r := r) state.1.context.stack.saved block none
    fun front hf => Nat.le_add_right_of_le (h.within front hf)
  have hnil : above = [] := by
    rw [h.even, List.length_nil, Nat.zero_add] at hn
    exact List.eq_nil_of_length_eq_zero (by omega)
  rw [hs, hnil]
  rfl

/-- A balanced block between `q` and `Q` leaves the live state and all saved states as they were,
whatever its operators find or fail to find. -/
theorem run_enclosed_stack (r : Resources σ) (i : Interpreter) (m : σ) (outer outer' : List Operand)
    {block : List Command} (h : Command.Balanced block) :
    (run r (i, m) (⟨"q", outer⟩ :: block ++ [⟨"Q", outer'⟩])).1.context.stack =
      i.context.stack := by
  have inside : (run r (runCommand r (i, m) ⟨"q", outer⟩) block).1.context.stack.saved =
      i.context.stack.live :: i.context.stack.saved := by
    rw [run_saved_of_balanced h, runCommand_save rfl]
    rfl
  rw [run_append]
  change (runCommand r (run r (runCommand r (i, m) ⟨"q", outer⟩) block) _).1.context.stack = _
  rw [runCommand_restore rfl, StateStack.restore, inside]

def sampleBlock : List Command :=
  [⟨"gs", [.name "GS"]⟩, ⟨"Tf", [.null]⟩, ⟨"q", []⟩, ⟨"rg", []⟩, ⟨"ZZ", [.integer 1]⟩, ⟨"Q", []⟩,
    ⟨"Do", [.name "X"]⟩]

def midStream : Interpreter where
  context := { stack := { live := { renderingMode := .clip }, saved := [{ fontSize := 12.0 }] } }
  index := 4

theorem run_enclosed_stack_sampleBlock :
    Command.Balanced sampleBlock ∧
      (run (ResourceTable.resources
          { extGStates := [("GS", { blendMode := some (.name "Multiply") })] }) (midStream, ())
        (⟨"q", []⟩ :: sampleBlock ++ [⟨"Q", []⟩])).1.context.stack = midStream.context.stack := by
  have h : Command.Balanced sampleBlock := by decide
  exact ⟨h, run_enclosed_stack _ midStream () [] [] h⟩

end Interpreter

end PdfContent
