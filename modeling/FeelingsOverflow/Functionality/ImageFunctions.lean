import FeelingsOverflow.Functionality.FirebaseMethods

-- The bytes of an image.
abbrev Image := List UInt8

-- The files of Firebase Storage by their paths.
abbrev Storage := String → Option Image

-- What one attempt to change the picture meets with: the image that is picked, if any, and whether
-- the upload and the request for its URL succeed.
structure ImageOutcome where
  picked : Option Image
  uploaded : Bool
  located : Bool
  deriving DecidableEq, Repr

namespace ImageFunction

def path (fileName : String) : String :=
  "user profile pictures/" ++ fileName

-- A failed upload is caught.
def uploadFile (filePath : Image) (fileName : String) (ok : Bool) (s : Storage) : Storage :=
  if ok then Function.update s (path fileName) (some filePath) else s

-- The URL under which Firebase Storage serves a file. Without one, or when the request fails, the
-- exception is caught and the URL is empty.
def getDownloadURL (url : String → Image → String) (fileName : String) (ok : Bool) (s : Storage) :
    String :=
  match ok, s (path fileName) with
  | true, some image => url (path fileName) image
  | _, _             => ""

end ImageFunction
