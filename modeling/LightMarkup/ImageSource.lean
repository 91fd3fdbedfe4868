import LightMarkup.Files
import LightMarkup.Logged
import LightMarkup.MediaType
import LightMarkup.Settings
import LightMarkup.Text.Base64

/-!
Image sources: data addresses, remote addresses and local paths, and what is written for each in a page.
-/

namespace LightMarkup

/-- An answer from a remote server. -/
structure Response where
  status : Int
  headers : List (Text × Text)
  body : Bytes
  deriving Repr

/-- What images are read from. -/
structure Resources where
  files : FileTree
  remote : List (Text × Response)
  deriving Repr

namespace Response

def isSuccess (r : Response) : Bool :=
  200 ≤ r.status && r.status < 300

/-- The value of a header, in whatever case its name is written; several values are one list. -/
def header? (r : Response) (name : Text) : Option Text :=
  match r.headers.filter fun (given, _) => Text.lower given == name with
  | [] => none
  | found => some (Text.join ", " (found.map (·.2)))

end Response

namespace ImageSource

def remotePattern : Pattern :=
  .char CharSet.letter ++ Pattern.many (.char (CharSet.letter ∪ .range '0' '9' ∪ CharSet.anyOf "+.-"))
    ++ Pattern.literal "://"

def isRemote (source : Text) : Bool :=
  (remotePattern.matchStart? source).isSome

def dataScheme : Text := "data:"

def isData (source : Text) : Bool :=
  dataScheme.isPrefixOf source

def dataAddress (content : Text) (mediaType : Option Text) : Text :=
  "data:" ++ mediaType.getD "application/octet-stream" ++ ";base64," ++ content

def embed (content : Bytes) (mediaType : Option Text) : Text :=
  dataAddress (Text.toBase64 content) mediaType

/-- The path of a local source, under the input's directory unless it is absolute. -/
def localPath (source : Text) (location : Option Path) : Path :=
  match location with
  | none => .ofText source
  | some location => location.under (.ofText source)

/-- A source that cannot be read: an error if sources are checked strictly, else kept with a warning. -/
def unreadable (settings : CompileSettings) (source : Text) (cause : ImageSourceError) : Logged Text := do
  if settings.strictImageSources then
    Logged.fail (.imageSource cause)
  else
    Logged.warn .resources (cause.message ++ ": source is kept as it is")
  pure source

def mediaTypeOf (url : Text) (response : Response) : Option Text :=
  match response.header? "content-type" with
  | some given => some (Text.trim (given.takeWhile (· != ';')))
  | none => MediaType.guess? url

def resolveRemote (settings : CompileSettings) (resources : Resources) (url : Text) : Logged Text :=
  if !settings.embedRemoteImages then pure url
  else match resources.remote.lookup url with
    | none => unreadable settings url (.unreachable url)
    | some response =>
      if response.isSuccess then pure (embed response.body (mediaTypeOf url response))
      else unreadable settings url (.unreachable url)

def resolveLocal (settings : CompileSettings) (resources : Resources) (source : Text) : Logged Text :=
  let path := localPath source settings.inputLocation
  match resources.files.find? path with
  | .ok (some (.file content)) =>
    pure (if settings.embedLocalImages then embed content (MediaType.guess? path.name) else path.toText)
  | .ok _ => unreadable settings source (.notFound path.toText)
  | .error fault => .fail (.fault fault)

/-- The value of an image's source attribute, before it is escaped. -/
def resolve (settings : CompileSettings) (resources : Resources) (source : Text) : Logged Text :=
  let source := Text.trim source
  if isData source then pure source
  else if isRemote source then resolveRemote settings resources source
  else resolveLocal settings resources source

end ImageSource

end LightMarkup
