import CircuitRom.Codec.Base64
import CircuitRom.Text.Utf8

/-!
# What is wrong with a blueprint
-/

namespace CircuitRom

/-- Why a blueprint could not be built or read. -/
inductive BlueprintFault where
  /-- A text is no JSON text, or not one of the expected shape. -/
  | malformed
  /-- A row template has another number of entities than four. -/
  | entityCount (found : Nat)
  /-- A row template lacks an entity. -/
  | missingEntity (name : String)
  /-- The storage of a row template has outputs already. -/
  | prefilled (name : String)
  /-- There are more or fewer sets of signals than rows. -/
  | rowCount (rows given : Nat)
  /-- A blueprint string is empty. -/
  | emptyText
  /-- A blueprint string is not written in base 64. -/
  | badBase64 (fault : Base64.Fault)
  /-- The packed part of a blueprint string cannot be unpacked. -/
  | badStream
  /-- The unpacked part of a blueprint string is no text. -/
  | notText (fault : Utf8.Fault)
deriving DecidableEq, Repr

/-- The wording of a fault. -/
def BlueprintFault.message : BlueprintFault → String
  | malformed => "Malformed blueprint JSON"
  | entityCount found => s!"Invalid row template: expected 4 entities, found {found}"
  | missingEntity name => s!"Invalid row template: missing `{name}`"
  | prefilled name => s!"Invalid row template: `{name}` must not carry filters"
  | rowCount rows given => s!"Blueprint has {rows} rows but {given} signal sets were given"
  | emptyText => "Blueprint string is empty"
  | badBase64 _ => "Invalid base64 in blueprint string"
  | badStream => "Failed to (de)compress blueprint"
  | notText _ => "Blueprint is not valid UTF-8"

/-- What lies behind a fault, where there is more to say. -/
def BlueprintFault.cause? : BlueprintFault → Option String
  | badBase64 fault => some fault.message
  | badStream => some "corrupt deflate stream"
  | notText fault => some fault.message
  | _ => none

/-- The wording of a fault with what lies behind it. -/
def BlueprintFault.report (fault : BlueprintFault) : String :=
  fault.message ++ ((fault.cause?.map (": " ++ ·)).getD "")

end CircuitRom
