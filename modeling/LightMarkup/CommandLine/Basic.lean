import LightMarkup.CommandLine.Options
import LightMarkup.Dossier.Loading

/-!
The command line: what a request writes to the terminal and to files.
-/

namespace LightMarkup

namespace CommandLine

/-- The files, what has been written to the terminal, and the exit code once there is one. -/
structure Session where
  files : FileTree
  output : Text := []
  errors : Text := []
  exit : Option Nat := none
  deriving Repr

def programName : Text := "nmd"
def programVersion : Text := "0.4.0"

def failureCode : Nat := 1
def usageCode : Nat := 2

def usage : Text :=
  "usage: " ++ programName ++ " [-v] [-a] [-d DIR] [-p] [-s] [-f] [-x] [file.nmd ...]"

def pageExtension : Text := ".html"

/-- The name of a document file without its ending, which may be cut down to a point. -/
def documentName (argument : Text) : Text :=
  let t := (Path.ofText argument).normalised.toText
  if Document.extension.isSuffixOf t then Text.dropEnding Document.extension t else Text.dropEnding "." t

def isDocumentFile (name : Text) : Bool :=
  Document.extension.isSuffixOf name

namespace Session

def print (t : Text) (s : Session) : Session :=
  { s with output := s.output ++ t ++ "\n" }

def report (t : Text) (s : Session) : Session :=
  { s with errors := s.errors ++ t ++ "\n" }

def stop (code : Nat) (s : Session) : Session :=
  { s with exit := some code }

def reportError (t : Text) (s : Session) : Session :=
  s.report ("error: " ++ t)

/-- Report why something cannot be done as asked, and stop. -/
def refuse (t : Text) (s : Session) : Session :=
  (s.reportError t).stop usageCode

def shows (verbose : Bool) (entry : Entry) : Bool :=
  verbose || entry.level == .warning

def reportEntry (s : Session) (entry : Entry) : Session :=
  s.report (entry.level.name ++ ": " ++ entry.origin.name ++ ": " ++ entry.message)

/-- Report what was logged: warnings, or everything if verbose. -/
def reportLog (verbose : Bool) (log : List Entry) (s : Session) : Session :=
  (log.filter (shows verbose)).foldl reportEntry s

def writePage (path page : Text) (s : Session) : Except Fault Session :=
  match s.files.write (Path.ofText path) (Text.toUtf8 page) with
  | .ok files =>
    if Text.isWritable page then .ok ({ s with files := files }.print ("success: wrote to " ++ inTicks path))
    else .error .notWritable
  | .error fault =>
    if fault.isAboutFiles then .ok ((s.reportError ("cannot write to " ++ inTicks path)).stop failureCode)
    else .error fault

/-- The lines that report a failure: one for each of several failures. A fault is not reported. -/
def failureLines : Failure → Except Fault (List Text)
  | .fault cause => .error cause
  | .several failures => .ok (failures.map Failure.message)
  | failure => .ok [failure.message]

/-- Report what was logged, and then go on with the result or report why there is none. -/
def andThen {α : Type} (verbose : Bool) (x : Logged α) (next : α → Session → Except Fault Session) (s : Session) :
    Except Fault Session :=
  let s := s.reportLog verbose x.log
  match x.outcome with
  | .ok a => next a s
  | .error failure => do
    let lines ← failureLines failure
    pure ((lines.foldl (fun s line => s.reportError line) s).stop failureCode)

end Session

namespace Options

def loadSettings (options : Options) : LoadSettings :=
  { parallel := options.parallel, strictQuotes := options.strict, strictLoadingRules := options.strict }

def compileSettings (options : Options) : CompileSettings :=
  let settings : CompileSettings := { parallel := options.parallel }
  if options.strict then settings.strict else settings

end Options

/-- Convert the document that an argument names into a page beside it. -/
def convertDocument (options : Options) (argument : Text) (s : Session) : Except Fault Session :=
  let name := documentName argument
  let path := Path.ofText (name ++ Document.extension)
  match s.files.readText path with
  | .error .fileNotFound =>
    .ok (s.refuse ("argument " ++ inTicks argument ++ ": file " ++ inTicks (name ++ Document.extension) ++ " not found"))
  | .error fault => .error fault
  | .ok t =>
    let settings := { options.compileSettings with inputLocation := some path.parent }
    let page := Page.ofText .standard options.loadSettings settings ⟨s.files, []⟩ (Path.lastName name) t
    s.andThen options.verbose page (Session.writePage (name ++ pageExtension))

/-- Convert documents one after the other until one stops the session. -/
def convertDocuments (options : Options) : List Text → Session → Except Fault Session
  | [], s => .ok s
  | argument :: rest, s => do
    let s ← convertDocument options argument s
    if s.exit.isSome then pure s else convertDocuments options rest s

/-- Convert a dossier into a page in its directory. Names are those of the documents that are compiled. -/
def convertDossier (options : Options) (directory : Text) (s : Session) : Except Fault Session := do
  let path := Path.ofText directory
  if !(← s.files.isDirectory path) then .ok (s.refuse ("argument " ++ inTicks directory ++ ": directory not found"))
  else
    let settings := options.compileSettings
    let settings : CompileSettings :=
      if options.names.isEmpty then settings
      else
        { settings with
          fastDraft := true
          onlyDocuments := some (options.names.map fun name => Path.lastName (documentName name)) }
    let named := Dossier.namedPage .standard options.loadSettings settings ⟨s.files, []⟩ path
    s.andThen options.verbose named fun (name, page) =>
      Session.writePage (path.under (.ofText (name ++ pageExtension))).toText page

/-- The document files of the tree, in order. -/
def documentFiles (files : FileTree) : List Text :=
  Text.sort ((files.files.filter fun names => isDocumentFile (names.getLastD [])).map (Text.join "/"))

def runOptions (options : Options) (s : Session) : Except Fault Session :=
  match options.dossier with
  | some directory =>
    if options.all then .ok (s.refuse "option -a (or --all) cannot be used with option -d (or --dossier)")
    else if !options.names.isEmpty && !options.fastDraft then
      .ok (s.refuse "option -d (or --dossier) takes positional arguments only with -f (or --fast-draft)")
    else convertDossier options directory s
  | none =>
    if options.fastDraft then .ok (s.refuse "option -f (or --fast-draft) requires option -d (or --dossier)")
    else if options.all then
      if options.names.isEmpty then convertDocuments options (documentFiles s.files) s
      else .ok (s.refuse "option -a (or --all) cannot be used with positional argument")
    else convertDocuments options options.names s

/-- Run a command line in a working directory. -/
def run (words : List Text) (files : FileTree) : Except Fault Session :=
  let s : Session := { files := files }
  match Request.ofTexts words with
  | .error cause => .ok (((s.report usage).report (programName ++ ": error: " ++ cause.message)).stop usageCode)
  | .ok .version => .ok (s.print (programName ++ " version " ++ programVersion))
  | .ok (.run options) => runOptions options s

namespace Session

def exitCode (s : Session) : Nat :=
  s.exit.getD 0

end Session

end CommandLine

end LightMarkup
