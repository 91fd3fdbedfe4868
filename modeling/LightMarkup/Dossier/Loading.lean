import LightMarkup.Dossier.Basic
import LightMarkup.Yaml.Basic

/-!
Loading a dossier from its directory, by the configuration file there.
-/

namespace LightMarkup

namespace DossierConfiguration

def fileNames : List Text :=
  ["nmd.yml", "nmd.yaml"]

/-- The configuration file of a directory: the first of the names that is one. -/
def file? (files : FileTree) (directory : Path) : List Text → Except Fault (Option Path)
  | [] => .ok none
  | name :: rest => do
    let path := directory.under (.ofText name)
    if ← files.isFile path then pure (some path) else file? files directory rest

/-- What becomes of a text that is not read: only what is not YAML is a mistake in the configuration. -/
def failureOf (path : Path) : Yaml.Problem → Failure
  | .malformed => .invalidConfiguration (.notYaml path.toText)
  | .outOfRange => .fault .outOfRange
  | .tooLarge => .fault .tooLarge
  | .unknownWord => .fault .unknownWord
  | .noDigits => .fault .noDigits
  | .notMoment => .fault .notMoment
  | .notText => .fault .notText
  | .endless => .fault .endless

/-- The value of a configuration file. -/
def valueOf (files : FileTree) (path : Path) : Except Failure Value :=
  match files.readText path with
  | .error fault => .error (if fault.isAboutFiles then .resource (.unreadable path.toText) else .fault fault)
  | .ok t => (Yaml.parse t).mapError (failureOf path)

/-- Read the configuration of a directory. An empty file is an empty mapping. -/
def read (files : FileTree) (directory : Path) : Logged DossierConfiguration :=
  match file? files directory fileNames with
  | .error fault => .fail (.fault fault)
  | .ok none => .fail (.resource (.noConfiguration directory.toText))
  | .ok (some path) => do
    let value ← Logged.ofExcept (valueOf files path)
    let entries ← match value.content with
      | .null => pure []
      | .mapping entries => pure entries
      | _ => Logged.fail (.invalidConfiguration (.notMapping path.toText))
    .debug .settings ("loaded dossier configuration " ++ inTicks path.toText)
    Logged.ofExcept (ofEntries files directory entries)

end DossierConfiguration

namespace Dossier

def load (catalogue : Catalogue) (settings : LoadSettings) (files : FileTree) (directory : Path) : Logged Dossier := do
  let configuration ← DossierConfiguration.read files directory
  ofConfiguration catalogue settings files configuration

/-- Load a dossier and compile it: its name and its page. -/
def namedPage (catalogue : Catalogue) (loading : LoadSettings) (settings : CompileSettings) (resources : Resources)
    (directory : Path) : Logged (Text × Text) := do
  let dossier ← load catalogue loading resources.files directory
  let (compiled, done) := dossier.compile catalogue.inline settings resources
  done
  pure (compiled.name, compiled.page)

end Dossier

end LightMarkup
