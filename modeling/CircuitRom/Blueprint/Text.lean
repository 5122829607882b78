import CircuitRom.Blueprint.Fault
import CircuitRom.Codec.Zlib
import CircuitRom.Text.Blank

/-!
# Blueprint strings

The text by which blueprints are handed around: a character for the version, and after it the
document, packed and written in base 64.
-/

namespace CircuitRom
namespace BlueprintText

/-- The version of the strings that are written here. -/
def version : Char := '0'

/-! ## Bytes -/

/-- Pack a document. -/
def compress (json : String) : List UInt8 := Zlib.compress json.toUTF8.data.toList

/-- The bytes of a text as numbers. -/
def bytesOf (text : List Char) : List Nat :=
  (String.ofList text).toUTF8.data.toList.map UInt8.toNat

/-- Unpack a document. -/
def decompress (bytes : List UInt8) : Except BlueprintFault String :=
  match Zlib.decompress? bytes with
  | none => .error .badStream
  | some bytes =>
    match String.fromUTF8? ⟨bytes.toArray⟩ with
    | none => .error (.notText (Utf8.faultOf bytes))
    | some json => .ok json

/-- The string for packed bytes. -/
def ofBytes (bytes : List UInt8) : String := String.ofList (version :: Base64.encode bytes)

/-- The version and the packed bytes of a string.  Blanks around it do not count. -/
def toBytes (text : String) : Except BlueprintFault (Char × List UInt8) :=
  match Text.trim text.toList with
  | [] => .error .emptyText
  | version :: rest =>
    match Base64.decode? rest with
    | none => .error (.badBase64 (Base64.faultOf (bytesOf rest)))
    | some bytes => .ok (version, bytes)

/-! ## Documents -/

/-- The string for a document. -/
def encode (json : String) : String := ofBytes (compress json)

/-- The version and the document of a string. -/
def decode (text : String) : Except BlueprintFault (Char × String) :=
  match toBytes text with
  | .error e => .error e
  | .ok (version, bytes) => (decompress bytes).map (version, ·)

end BlueprintText
end CircuitRom
