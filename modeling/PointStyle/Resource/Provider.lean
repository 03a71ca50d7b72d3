import PointStyle.Resource.Error
import PointStyle.Table

/-!
Providers: where the bytes of an image come from. Styles name images by source strings, and what a
source means is up to the provider.
-/
namespace PointStyle

abbrev Bytes := List UInt8

namespace Resource

/-- A provider as it is at one moment. -/
structure Provider where
  /-- The name it is reported by. -/
  name : String
  /-- The bytes of a source. -/
  load : String → Except ResourceError Bytes
  /-- Whether a source can be expected to load. -/
  has : String → Bool

/-- Resources held in memory, by their source. -/
abbrev Memory := Table Bytes

namespace Memory

def load (memory : Memory) (src : String) : Except ResourceError Bytes :=
  match Table.get? memory src with
  | some bytes => .ok bytes
  | none => .error (.notFound src)

/-- The provider of what is held now. -/
def provider (memory : Memory) : Provider where
  name := "in-memory"
  load := memory.load
  has := Table.has memory

end Memory

end Resource

end PointStyle
