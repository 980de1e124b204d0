import PdfContent.Bytes

/-!
Text from bytes that should be UTF-8. A malformed sequence becomes one replacement character and
ends before the first byte that cannot continue it, so a decoder never skips a well-formed
character.
-/

namespace PdfContent.Text.Utf8

def replacement : Char := Char.ofNat 0xFFFD

def size (cs : List Char) : Nat := cs.foldl (fun n c => n + c.utf8Size) 0

theorem size_eq_length {cs : List Char} (h : ∀ c ∈ cs, c.utf8Size = 1) : size cs = cs.length := by
  suffices total : ∀ n, cs.foldl (fun n c => n + c.utf8Size) n = n + cs.length by
    rw [size, total, Nat.zero_add]
  induction cs with
  | nil => exact fun _ => rfl
  | cons c cs ih =>
    rw [List.forall_mem_cons] at h
    intro n
    rw [List.foldl_cons, ih h.2, h.1, List.length_cons]
    omega

def isContinuation (b : UInt8) : Bool := 0x80 ≤ b && b ≤ 0xBF

def continuationBits (b : UInt8) : Nat := b.toNat - 0x80

def secondFits (lead second : UInt8) : Bool :=
  if lead == 0xE0 then 0xA0 ≤ second && second ≤ 0xBF
  else if lead == 0xED then 0x80 ≤ second && second ≤ 0x9F
  else if lead == 0xF0 then 0x90 ≤ second && second ≤ 0xBF
  else if lead == 0xF4 then 0x80 ≤ second && second ≤ 0x8F
  else isContinuation second

/-- How many bytes after the lead byte its sequence has, for a lead byte that can stand first. -/
def tailLength? (lead : UInt8) : Option Nat :=
  if lead < 0x80 then some 0
  else if 0xC2 ≤ lead && lead ≤ 0xDF then some 1
  else if 0xE0 ≤ lead && lead ≤ 0xEF then some 2
  else if 0xF0 ≤ lead && lead ≤ 0xF4 then some 3
  else none

def decodeHead (lead : UInt8) (s : Bytes) : Char × Nat :=
  match tailLength? lead, s with
  | some 0, _ => (Byte.toChar lead, 0)
  | some 1, a :: _ =>
    if isContinuation a then (Char.ofNat ((lead.toNat - 0xC0) * 64 + continuationBits a), 1)
    else (replacement, 0)
  | some 2, a :: r =>
    if secondFits lead a then
      match r with
      | b :: _ =>
        if isContinuation b then
          (Char.ofNat (((lead.toNat - 0xE0) * 64 + continuationBits a) * 64
            + continuationBits b), 2)
        else (replacement, 1)
      | [] => (replacement, 1)
    else (replacement, 0)
  | some _, a :: r =>
    if secondFits lead a then
      match r with
      | b :: r =>
        if isContinuation b then
          match r with
          | c :: _ =>
            if isContinuation c then
              (Char.ofNat ((((lead.toNat - 0xF0) * 64 + continuationBits a) * 64
                + continuationBits b) * 64 + continuationBits c), 3)
            else (replacement, 2)
          | [] => (replacement, 2)
        else (replacement, 1)
      | [] => (replacement, 1)
    else (replacement, 0)
  | _, _ => (replacement, 0)

def decode : Bytes → List Char
  | [] => []
  | b :: s =>
    let head := decodeHead b s
    head.1 :: decode (s.drop head.2)
termination_by s => s.length
decreasing_by
  simp only [List.length_drop, List.length_cons]
  omega

end PdfContent.Text.Utf8

namespace PdfContent.Bytes

def toText (s : Bytes) : String := String.ofList (Text.Utf8.decode s)

end PdfContent.Bytes
