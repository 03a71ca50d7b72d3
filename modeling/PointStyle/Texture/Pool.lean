import PointStyle.Log
import PointStyle.Texture.Image

/-!
Textures that are loaded in the background. A pool holds the textures of a program; the worker of a
texture first fetches and decodes its image, and at some later step settles the texture with the
outcome. Handles are places in the pool, so all copies of a handle show the same texture.
-/
namespace PointStyle

namespace Texture

/-- How loading an image ended. -/
abbrev Outcome := Except ResourceError Image

/-- What can be seen of a texture. -/
inductive State where
  /-- Nobody loads it. -/
  | idle
  /-- A worker has yet to settle it. -/
  | loading
  | ready (image : Image)
  | failed (error : ResourceError)
deriving DecidableEq, Repr

namespace State

/-- The state that an outcome settles in. -/
def ofOutcome : Outcome → State
  | .ok image => .ready image
  | .error error => .failed error

def isReady : State → Bool
  | .ready _ => true
  | _ => false

def image? : State → Option Image
  | .ready image => some image
  | _ => none

/-- What waiting for a texture of this source gives, or none as long as one would have to wait. -/
def outcome? (src : String) : State → Option Outcome
  | .idle => some (.error (.loadFailed src .neverStarted))
  | .loading => none
  | .ready image => some (.ok image)
  | .failed error => some (.error error)

def outline : State → String
  | .idle => "Idle"
  | .loading => "Loading"
  | .ready image => "Ready(" ++ image.outline ++ ")"
  | .failed error => "Failed(" ++ error.outline ++ ")"

end State

/-- Loads an image at once. -/
def load (provider : Resource.Provider) (src : String) (decoder : Image.Decoder := Image.decode) :
    Outcome := do
  let bytes ← provider.load src
  Image.ofSource src bytes decoder

/-- What the worker of a texture has done. -/
inductive Work where
  /-- There is nothing to do, or it is done. -/
  | none
  /-- It has to fetch the image. -/
  | pending
  /-- It has fetched the image, but not settled the texture. -/
  | fetched (outcome : Outcome)

/-- A texture: its source, the policy for fetching it from elsewhere, its state and its worker. -/
structure Cell where
  src : String
  crossOrigin : String
  state : State
  work : Work

namespace Cell

/-- The worker fetches the image from what the provider holds now. -/
def fetch (provider : Resource.Provider) (cell : Cell) (decoder : Image.Decoder := Image.decode) :
    Cell :=
  match cell.work with
  | .pending => { cell with work := .fetched (load provider cell.src decoder) }
  | _ => cell

/-- The worker settles the texture with what it fetched. -/
def settle (cell : Cell) : Cell :=
  match cell.work with
  | .fetched outcome => { cell with state := .ofOutcome outcome, work := .none }
  | _ => cell

/-- What waiting gives, or none while the texture is loading. -/
def outcome? (cell : Cell) : Option Outcome :=
  cell.state.outcome? cell.src

def outline (cell : Cell) : String :=
  "TextureHandle \x7b src: " ++ Text.quoted cell.src ++ ", cross_origin: " ++
    Text.quoted cell.crossOrigin ++ ", state: " ++ cell.state.outline ++ " \x7d"

end Cell

/-- The place of a texture in its pool. -/
structure Handle where
  index : Nat
deriving DecidableEq, Repr

/-- The textures of a program, in the order in which they were made. -/
structure Pool where
  cells : List Cell

namespace Pool

def empty : Pool := ⟨[]⟩

def get? (pool : Pool) (handle : Handle) : Option Cell :=
  pool.cells[handle.index]?

def add (pool : Pool) (cell : Cell) : Handle × Pool :=
  (⟨pool.cells.length⟩, ⟨pool.cells ++ [cell]⟩)

/-- The handle of a new texture shows that texture. -/
theorem get?_add (pool : Pool) (cell : Cell) :
    (pool.add cell).2.get? (pool.add cell).1 = some cell := by
  simp [add, get?]

/-- The textures there were are not touched by a new one. -/
theorem get?_add_of_lt {pool : Pool} {handle : Handle} (cell : Cell)
    (h : handle.index < pool.cells.length) : (pool.add cell).2.get? handle = pool.get? handle := by
  simp only [add, get?]
  exact List.getElem?_append_left h

/-- Makes a texture that nobody loads. -/
def idle (pool : Pool) (src crossOrigin : String) : Handle × Pool :=
  pool.add ⟨src, crossOrigin, .idle, .none⟩

/-- Makes a texture and leaves loading it to a worker. -/
def spawn (pool : Pool) (src crossOrigin : String) : Handle × Pool :=
  pool.add ⟨src, crossOrigin, .loading, .pending⟩

/-- Makes a texture that is loaded at once. -/
def loadBlocking (pool : Pool) (provider : Resource.Provider) (src crossOrigin : String)
    (decoder : Image.Decoder := Image.decode) : Handle × Pool :=
  pool.add ⟨src, crossOrigin, .ofOutcome (load provider src decoder), .none⟩

def spawnRecord (provider : Resource.Provider) (src crossOrigin : String) : Log.Record :=
  ⟨.debug, "Loading texture '" ++ src ++ "' via " ++ provider.name ++ " provider (crossOrigin: " ++
    crossOrigin ++ ")"⟩

def modify (pool : Pool) (handle : Handle) (change : Cell → Cell) : Pool :=
  ⟨pool.cells.modify handle.index change⟩

def fetch (pool : Pool) (provider : Resource.Provider) (handle : Handle)
    (decoder : Image.Decoder := Image.decode) : Pool :=
  pool.modify handle (·.fetch provider decoder)

def settle (pool : Pool) (handle : Handle) : Pool :=
  pool.modify handle Cell.settle

/-- The worker of a texture does all it has to do. -/
def finish (pool : Pool) (provider : Resource.Provider) (handle : Handle)
    (decoder : Image.Decoder := Image.decode) : Pool :=
  (pool.fetch provider handle decoder).settle handle

end Pool

end Texture

end PointStyle
