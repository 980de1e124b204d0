import PdfContent.Failure
import PdfContent.Text.Utf8

/-!
The objects of a PDF document. Reals have single precision; a stream is a dictionary with raw data.
-/

namespace PdfContent

inductive PdfObject
  | null
  | boolean (value : Bool)
  | integer (value : Int)
  | real (value : Float)
  | name (bytes : Bytes)
  | string (bytes : Bytes)
  | array (items : List PdfObject)
  | dictionary (entries : List (Bytes × PdfObject))
  | stream (entries : List (Bytes × PdfObject)) (data : Bytes)
  | reference (id : ObjectId)
  deriving Inhabited

abbrev Dictionary := List (Bytes × PdfObject)

namespace Dictionary

def entry? (d : Dictionary) (key : String) : Option PdfObject :=
  List.lookup (Bytes.ofUtf8 key) d

def has (d : Dictionary) (key : String) : Bool := (d.entry? key).isSome

def isNamed (d : Dictionary) (key name : String) : Bool :=
  match d.entry? key with
  | some (.name n) => n == Bytes.ofUtf8 name
  | _ => false

end Dictionary

namespace PdfObject

def ofReal (x : Float) : PdfObject := real x.toFloat32.toFloat

def typeName : PdfObject → String
  | null => "Null"
  | boolean _ => "Boolean"
  | integer _ => "Integer"
  | real _ => "Real"
  | name _ => "Name"
  | string _ => "String"
  | array _ => "Array"
  | dictionary _ => "Dictionary"
  | stream .. => "Stream"
  | reference _ => "Reference"

def wrongType (expected : String) (o : PdfObject) : ObjectFault :=
  .wrongType expected o.typeName

def number? : PdfObject → Option Float
  | integer i => some (Float.ofInt i)
  | real x => some x
  | _ => none

def integer? : PdfObject → Option Int
  | integer i => some i
  | _ => none

def boolean? : PdfObject → Option Bool
  | boolean b => some b
  | _ => none

def name? : PdfObject → Option String
  | name n => some n.toText
  | _ => none

def text? : PdfObject → Option String
  | string s => some s.toText
  | name n => some n.toText
  | _ => none

def array? : PdfObject → Option (List PdfObject)
  | array items => some items
  | _ => none

def dictionary? : PdfObject → Option Dictionary
  | dictionary d => some d
  | stream d _ => some d
  | _ => none

def reference? : PdfObject → Option ObjectId
  | reference id => some id
  | _ => none

end PdfObject

end PdfContent
