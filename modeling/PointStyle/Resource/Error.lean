import PointStyle.Text.Quoted

/-!
What can go wrong between the source of an image and its pixels, and how it is said.
-/
namespace PointStyle

/-- Why a file tree could not be read at a path. -/
inductive SystemError where
  /-- Nothing is there. -/
  | notFound
  /-- The path goes on below something that is not a directory. -/
  | notDirectory
  /-- A directory stands where a file should. -/
  | isDirectory
  /-- A name or the whole path is too long. -/
  | nameTooLong
  /-- More links were met than one path may follow. -/
  | tooManyLinks
  /-- The path holds a character that no path can hold. -/
  | nulByte
deriving DecidableEq, Repr

namespace SystemError

def message : SystemError → String
  | .notFound => "No such file or directory (os error 2)"
  | .notDirectory => "Not a directory (os error 20)"
  | .isDirectory => "Is a directory (os error 21)"
  | .nameTooLong => "File name too long (os error 36)"
  | .tooManyLinks => "Too many levels of symbolic links (os error 40)"
  | .nulByte => "file name contained an unexpected NUL byte"

end SystemError

/-- Why a source could not be loaded, apart from its being absent. -/
inductive LoadFault where
  /-- The source leads out of the directory it should stay in. -/
  | outsideRoot
  /-- Nobody asked for the source to be loaded. -/
  | neverStarted
  /-- The system refused. -/
  | system (error : SystemError)
deriving DecidableEq, Repr

namespace LoadFault

def message : LoadFault → String
  | .outsideRoot => "source resolves outside the resource root"
  | .neverStarted => "texture load was never started"
  | .system error => error.message

end LoadFault

/-- Why bytes are not an image. -/
inductive DecodeFault where
  /-- They start like no known format. -/
  | unknownFormat
  /-- They end too early. -/
  | truncated
  /-- What else the reader of a format may say. -/
  | other (message : String)
deriving DecidableEq, Repr

namespace DecodeFault

def message : DecodeFault → String
  | .unknownFormat => "The image format could not be determined"
  | .truncated => "unexpected end of file"
  | .other message => message

end DecodeFault

/-- Why a source gave no image. -/
inductive ResourceError where
  | notFound (src : String)
  | loadFailed (src : String) (fault : LoadFault)
  | decode (src : String) (fault : DecodeFault)
  | io (text : String)
deriving DecidableEq, Repr

namespace ResourceError

def message : ResourceError → String
  | .notFound src => "Resource not found: " ++ src
  | .loadFailed src fault => "Failed to load resource '" ++ src ++ "': " ++ fault.message
  | .decode src fault => "Could not decode image '" ++ src ++ "': " ++ fault.message
  | .io text => "I/O error: " ++ text

/-- The source and the message of an error as named parts. -/
def parts (src message : String) : String :=
  " \x7b src: " ++ Text.quoted src ++ ", message: " ++ Text.quoted message ++ " \x7d"

/-- The error as a texture's outline shows it: its case and its parts. -/
def outline : ResourceError → String
  | .notFound src => "NotFound(" ++ Text.quoted src ++ ")"
  | .loadFailed src fault => "LoadFailed" ++ parts src fault.message
  | .decode src fault => "Decode" ++ parts src fault.message
  | .io text => "Io(" ++ Text.quoted text ++ ")"

end ResourceError

end PointStyle
