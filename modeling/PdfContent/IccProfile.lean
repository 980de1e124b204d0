import PdfContent.Text.Blank
import PdfContent.Text.Utf8

/-!
The header of an ICC profile. Only the fixed fields are read; a profile is recognised by its
length and by the file signature at byte 36.
-/

namespace PdfContent

structure IccProfile where
  size : Nat
  majorVersion : Nat
  minorVersion : Nat
  deviceClass : String
  colorSpace : String
  components : Option Nat
  deriving DecidableEq, Inhabited

namespace IccProfile

def headerLength : Nat := 128

def componentsOf (signature : String) : Option Nat :=
  if signature == "GRAY" then some 1
  else if signature ∈ ["RGB", "Lab", "XYZ", "Luv", "YCbr", "Yxy", "HSV", "HLS", "CMY"] then some 3
  else if signature == "CMYK" then some 4
  else
    match Bytes.ofUtf8 signature with
    | [count, 0x43, 0x4C, 0x52] => Byte.hexValue count
    | _ => none

def signature (field : Bytes) : String := Text.trimEnd field.toText

def ofBytes? (data : Bytes) : Option IccProfile :=
  if data.length < headerLength then none
  else if (data.drop 36).take 4 != Bytes.ofLatin "acsp" then none
  else
    let colorSpace := signature ((data.drop 16).take 4)
    some {
      size := Bytes.bigEndian (data.take 4)
      majorVersion := Bytes.bigEndian ((data.drop 8).take 1)
      minorVersion := Bytes.bigEndian ((data.drop 9).take 1) / 16
      deviceClass := signature ((data.drop 12).take 4)
      colorSpace
      components := componentsOf colorSpace }

end IccProfile

end PdfContent
