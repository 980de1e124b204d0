import PdfContent.Bytes
import Std.Data.TreeMap

/-!
Declared glyph widths, in thousandths of text space.
-/

namespace PdfContent

/-- Widths of consecutive codes from a first one on, with a width for the codes outside. -/
structure SimpleWidths where
  widths : List Float := []
  firstChar : Nat := 0
  missing : Option Float := none
  deriving Inhabited

def SimpleWidths.declared? (w : SimpleWidths) (code : Nat) : Option Float :=
  (if w.firstChar ≤ code then w.widths[code - w.firstChar]? else none).or w.missing

def defaultCidWidth : Float := 1000.0

structure CidWidths where
  widths : Std.TreeMap Nat Float := ∅
  default : Float := defaultCidWidth

def CidWidths.width (w : CidWidths) (cid : Nat) : Float := w.widths.getD cid w.default

inductive CidToGid
  | identity
  | explicit (table : List Nat)
  deriving DecidableEq, Inhabited

namespace CidToGid

def glyph (m : CidToGid) (cid : Nat) : Nat :=
  match m with
  | identity => cid
  | explicit table => table[cid]?.getD 0

def ofBytes (data : Bytes) : CidToGid := explicit (Bytes.words data)

end CidToGid

def widthTolerance : Float := 1.0

def widthsAgree (declared actual : Float) : Bool := (declared - actual).abs ≤ widthTolerance

end PdfContent
