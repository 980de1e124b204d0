import PdfContent.Node
import PdfContent.Operand.Leaf

/-!
What the facts of a glyph rest on. A font asks its program for a glyph by code, or by CID where the
CID is known. Presence is what the program answers, and a verdict on the width needs a glyph that is
present, a width that the font declares and one that the program has.
-/

namespace PdfContent

def Glyph.ref? (g : Glyph) : Option GlyphRef :=
  match g.kind with
  | .simple => some (.code g.code g.name g.text)
  | .cid cid => cid.map .cid

namespace Font

def programContains? (f : Font) (g : Glyph) : Option Bool :=
  f.program.bind fun program => g.ref?.map program.contains

def programWidth? (f : Font) (g : Glyph) : Option Float :=
  f.program.bind fun program => g.ref?.bind program.width?

end Font

/-- The facts of a glyph agree with its font, and none is given without what it rests on. -/
structure Glyph.Coherent (f : Font) (g : Glyph) : Prop where
  kind : (∃ cid, g.kind = .cid cid) ↔ f.isComposite
  cid : g.cid? = f.cid? g.code
  unnamed : f.isComposite → g.name = none
  present : g.present.isSome ↔ f.program.isSome ∧ (f.isComposite → g.cid?.isSome)
  contained : g.present = f.programContains? g
  judged : g.widthConsistent.isSome ↔
    g.present = some true ∧ (f.declaredWidth? g.code).isSome ∧ (f.programWidth? g).isSome
  verdict : ∀ agree declared actual, g.widthConsistent = some agree →
    f.declaredWidth? g.code = some declared → f.programWidth? g = some actual →
      (agree = true ↔ (declared - actual).abs ≤ 1.0)
  unknown : f.program = none → g.present = none ∧ g.widthConsistent = none

namespace Font

variable (f : Font)

theorem facts_glyphOfCode (c : CharCode) :
    let g := f.glyphOfCode c
    let result := (g.ref?.map (f.check g.code)).getD {}
    g.present = result.present ∧ g.widthConsistent = result.widthConsistent := by
  unfold glyphOfCode
  cases f.isComposite with
  | false => exact ⟨rfl, rfl⟩
  | true => cases f.cid? c.code <;> exact ⟨rfl, rfl⟩

theorem present_glyphOfCode (c : CharCode) :
    (f.glyphOfCode c).present = f.programContains? (f.glyphOfCode c) := by
  rw [(f.facts_glyphOfCode c).1, programContains?]
  cases (f.glyphOfCode c).ref? with
  | none => cases f.program <;> rfl
  | some ref =>
    rw [Option.map_some, Option.getD_some, check]
    cases f.program <;> rfl

theorem widthConsistent_glyphOfCode (c : CharCode) :
    (f.glyphOfCode c).widthConsistent =
      if (f.glyphOfCode c).present = some true then
        (f.declaredWidth? (f.glyphOfCode c).code).bind fun declared =>
          (f.programWidth? (f.glyphOfCode c)).map fun actual => widthsAgree declared actual
      else none := by
  rw [present_glyphOfCode, (f.facts_glyphOfCode c).2, programContains?, programWidth?]
  cases (f.glyphOfCode c).ref? with
  | none => cases f.program <;> rfl
  | some ref =>
    rw [Option.map_some, Option.getD_some, check]
    cases f.program with
    | none => rfl
    | some program => simp

theorem cid?_of_simple (simple : f.isComposite = false) (code : Nat) : f.cid? code = none := by
  unfold isComposite at simple
  unfold cid?
  cases body : f.body with
  | simple => rfl
  | composite => rw [body] at simple; cases simple

theorem isSome_ref?_glyphOfCode (c : CharCode) :
    (f.glyphOfCode c).ref?.isSome ↔ (f.isComposite → (f.glyphOfCode c).cid?.isSome) := by
  unfold glyphOfCode
  cases f.isComposite with
  | false => simp [Glyph.ref?]
  | true => simp [Glyph.ref?, Glyph.cid?]

theorem coherent_glyphOfCode (c : CharCode) : (f.glyphOfCode c).Coherent f where
  kind := by
    unfold glyphOfCode
    cases f.isComposite <;> simp
  cid := by
    unfold glyphOfCode
    cases composite : f.isComposite with
    | false => exact (f.cid?_of_simple composite c.code).symm
    | true => rfl
  unnamed := by
    intro composite
    rw [glyphOfCode, if_pos composite]
  present := by
    rw [present_glyphOfCode, ← isSome_ref?_glyphOfCode, programContains?]
    cases f.program <;> simp
  contained := f.present_glyphOfCode c
  judged := by
    rw [widthConsistent_glyphOfCode]
    split
    · next present =>
      rw [present]
      cases f.declaredWidth? (f.glyphOfCode c).code <;> simp
    · next absent => simp [absent]
  verdict := by
    intro agree declared actual given width programWidth
    rw [widthConsistent_glyphOfCode, width, programWidth] at given
    obtain ⟨-, agrees⟩ := Option.ite_none_right_eq_some.1 given
    cases agrees
    exact decide_eq_true_iff
  unknown := by
    intro missing
    have absent : (f.glyphOfCode c).present = none := by
      rw [present_glyphOfCode, programContains?, missing, Option.bind_none]
    exact ⟨absent, by rw [widthConsistent_glyphOfCode, absent, if_neg (by simp)]⟩

theorem coherent_of_glyphs_eq_ok {s : Bytes} {glyphs : List Glyph}
    (read : f.glyphs s = .ok glyphs) : ∀ g ∈ glyphs, g.Coherent f := by
  obtain ⟨codes, -, rfl⟩ := map_eq_ok read
  intro g mem
  obtain ⟨c, -, rfl⟩ := List.mem_map.1 mem
  exact f.coherent_glyphOfCode c

end Font

/-- All glyphs that an operator shows in a font, in whatever strings, are coherent. -/
theorem Node.coherent_glyphs {n : Node} {f : Font} {strings : List Bytes}
    (shows : n.kind = .textShow (some f) strings) : ∀ g ∈ n.glyphs, g.Coherent f := by
  intro g mem
  rw [Node.glyphs, Node.shown, shows] at mem
  obtain ⟨result, shown, mem⟩ := List.mem_flatMap.1 mem
  obtain ⟨s, -, rfl⟩ := List.mem_map.1 shown
  cases read : f.glyphs s with
  | error fault => rw [read] at mem; cases mem
  | ok glyphs => rw [read] at mem; exact f.coherent_of_glyphs_eq_ok read g mem

def gappedFont : Font where
  body := .composite (.embedded {
    cids := .ofList [(1, 5), (2, 6)]
    codespaces := [⟨[0x00], [0xFF]⟩] }) { default := 500.0 } none
  program := some { contains := fun ref => ref == .cid 5, width? := fun _ => some 501.0 }

def gappedShow : Node :=
  { index := 0, name := "Tj", operands := [], kind := .textShow (some gappedFont) [[1, 2, 3]] }

theorem Node.coherent_glyphs_gapped :
    gappedShow.kind = .textShow (some gappedFont) [[1, 2, 3]] ∧
      gappedShow.glyphs =
        [⟨1, none, some true, some true, none, .cid (some 5)⟩,
          ⟨2, none, some false, none, none, .cid (some 6)⟩,
          ⟨3, none, none, none, none, .cid none⟩] ∧
      ∀ g ∈ gappedShow.glyphs, g.Coherent gappedFont :=
  ⟨rfl, by decide +kernel, Node.coherent_glyphs rfl⟩

end PdfContent
