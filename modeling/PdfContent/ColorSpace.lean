import PdfContent.IccProfile

/-!
Color spaces as a content stream selects them. A space may rest on another one: the base of an
indexed space, the alternate of a spot space, the space under an uncolored pattern.
-/

namespace PdfContent

inductive ColorSpace
  | deviceGray
  | deviceRgb
  | deviceCmyk
  | calGray
  | calRgb
  | lab
  | iccBased (components : Nat) (alternate : Option ColorSpace) (profile : Option IccProfile)
  | indexed (base : ColorSpace) (highest : Nat)
  | separation (colorant : String) (alternate : ColorSpace)
  | deviceN (colorants : List String) (alternate : ColorSpace)
  | pattern (underlying : Option ColorSpace)
  deriving BEq, Inhabited

inductive DeviceFamily
  | gray
  | rgb
  | cmyk
  deriving DecidableEq, Inhabited

namespace DeviceFamily

def colorSpace : DeviceFamily → ColorSpace
  | gray => .deviceGray
  | rgb => .deviceRgb
  | cmyk => .deviceCmyk

def defaultName : DeviceFamily → String
  | gray => "DefaultGray"
  | rgb => "DefaultRGB"
  | cmyk => "DefaultCMYK"

end DeviceFamily

namespace ColorSpace

def ofFamilyName? (name : String) : Option ColorSpace :=
  if name == "DeviceGray" || name == "G" then some deviceGray
  else if name == "DeviceRGB" || name == "RGB" then some deviceRgb
  else if name == "DeviceCMYK" || name == "CMYK" then some deviceCmyk
  else if name == "Pattern" then some (pattern none)
  else none

def deviceFamily? : ColorSpace → Option DeviceFamily
  | deviceGray => some .gray
  | deviceRgb => some .rgb
  | deviceCmyk => some .cmyk
  | _ => none

def family : ColorSpace → String
  | deviceGray => "DeviceGray"
  | deviceRgb => "DeviceRGB"
  | deviceCmyk => "DeviceCMYK"
  | calGray => "CalGray"
  | calRgb => "CalRGB"
  | lab => "Lab"
  | iccBased .. => "ICCBased"
  | indexed .. => "Indexed"
  | separation .. => "Separation"
  | deviceN .. => "DeviceN"
  | pattern .. => "Pattern"

def components : ColorSpace → Nat
  | deviceGray => 1
  | calGray => 1
  | deviceRgb => 3
  | calRgb => 3
  | lab => 3
  | deviceCmyk => 4
  | iccBased n _ _ => n
  | indexed .. => 1
  | separation .. => 1
  | deviceN colorants _ => colorants.length
  | pattern none => 0
  | pattern (some under) => under.components

def isDeviceDependent : ColorSpace → Bool
  | deviceGray => true
  | deviceRgb => true
  | deviceCmyk => true
  | indexed base _ => base.isDeviceDependent
  | pattern (some under) => under.isDeviceDependent
  | _ => false

def isPattern : ColorSpace → Bool
  | pattern _ => true
  | _ => false

end ColorSpace

end PdfContent
