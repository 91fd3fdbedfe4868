import LightMarkup.Contents
import LightMarkup.Files
import LightMarkup.Settings.Values

/-!
Dossier configurations: what the values of a configuration file must be, and how a configuration overlays the
settings of loading and compiling.
-/

namespace LightMarkup

inductive SettingChange where
  | switch (switch : Switch) (value : Bool)
  | excluded (excluded : Exclusion)
  deriving DecidableEq, Repr

structure DossierConfiguration where
  name : Text
  documents : List Text
  location : Path
  contents : Option ContentsSettings
  bibliography : Option Bibliography
  references : List (Text × Text)
  changes : List SettingChange
  deriving Repr

namespace SettingChange

def excludedName : Text := "excluded_modifiers"

def name : SettingChange → Text
  | .switch changed _ => changed.name
  | .excluded _ => excludedName

def apply (settings : CompileSettings) : SettingChange → CompileSettings
  | .switch changed value => changed.set value settings
  | .excluded names => { settings with excluded := names }

def toEntry : SettingChange → Value × Value
  | .switch changed value => (.text changed.name, .bool value)
  | .excluded names => (.text excludedName, names.toValue)

/-- Only two of the switches also govern loading. -/
def applyToLoading (settings : LoadSettings) : SettingChange → LoadSettings
  | .switch .strictQuotes value => { settings with strictQuotes := value }
  | .switch .parallel value => { settings with parallel := value }
  | _ => settings

end SettingChange

namespace ContentsSettings

def levelOf (entries : List (Value × Value)) : Except Failure Int :=
  match Value.lookup? "maximum_heading_level" entries with
  | none => .ok HeadingConstruct.maximumLevel
  | some value =>
    match value.integer? with
    | some level =>
      if 1 ≤ level && level ≤ HeadingConstruct.maximumLevel then .ok level
      else .error (.invalidConfiguration .headingLevelOutOfRange)
    | none => .error (.invalidConfiguration .headingLevelOutOfRange)

def isTrueUnder (key : Text) (standard : Bool) (entries : List (Value × Value)) : Bool :=
  ((Value.lookup? key entries).map Value.isTrue).getD standard

/-- A truth value, or a mapping with any of the four settings. -/
def ofValue (value : Value) : Except Failure (Option ContentsSettings) :=
  match value.content with
  | .null => .ok none
  | .bool false => .ok none
  | .bool true => .ok (some {})
  | .mapping entries => do
    let level ← levelOf entries
    let title ← Value.titleAmong entries "Table of contents"
    pure (some {
      title := title
      maximumLevel := level
      plain := isTrueUnder "plain" false entries
      included := isTrueUnder "include_in_output" true entries })
  | _ => .error (.invalidConfiguration (.sectionNotMapping "table_of_contents"))

def toValue (settings : ContentsSettings) : Value :=
  .mapping [
    (.text "title", .text settings.title), (.text "maximum_heading_level", .int settings.maximumLevel),
    (.text "plain", .bool settings.plain), (.text "include_in_output", .bool settings.included)]

end ContentsSettings

namespace DossierConfiguration

def referencesOf (value : Value) : Except Failure (List (Text × Text)) :=
  match value.content with
  | .null => .ok []
  | .mapping entries => Value.shownEntries entries
  | _ => .error (.invalidConfiguration (.sectionNotMapping "references"))

def changeOf (key value : Value) : Except Failure SettingChange :=
  if key.isTextEqual SettingChange.excludedName then (Exclusion.ofValue value).map .excluded
  else match (if key.isText then (Switch.ofName? key.shown).filter Switch.isForDossiers else none), value with
    | some changed, .bool b => .ok (.switch changed b)
    | some changed, _ => .error (.invalidConfiguration (.settingNotBoolean changed.name))
    | none, _ => do
      let shown ← key.shownOrFault
      throw (.invalidConfiguration (.unknownSetting shown))

def changesOfEntries : List (Value × Value) → Except Failure (List SettingChange)
  | [] => .ok []
  | (key, value) :: rest => do
    let change ← changeOf key value
    let changes ← changesOfEntries rest
    pure (change :: changes)

def changesOf (value : Value) : Except Failure (List SettingChange) :=
  match value.content with
  | .null => .ok []
  | .mapping entries => changesOfEntries entries
  | _ => .error (.invalidConfiguration (.sectionNotMapping "compilation"))

/-- The documents that are listed, or else the files of the directory with the right extension, in order. -/
def documentsOf (files : FileTree) (directory : Path) (value : Value) : Except Failure (List Text) :=
  match value.content with
  | .null => do
    let names ← (files.list directory).mapError .fault
    let found ← (names.filterM fun name =>
      if Document.extension.isSuffixOf name then files.isFile ⟨directory.root, directory.names ++ [name]⟩
      else pure false).mapError .fault
    pure (Text.sort found)
  | .list items =>
    match Value.texts? items with
    | some names => .ok names
    | none => .error (.invalidConfiguration .documentsNotList)
  | _ => .error (.invalidConfiguration .documentsNotList)

/-- A configuration from the entries of a configuration file in `directory`. -/
def ofEntries (files : FileTree) (directory : Path) (entries : List (Value × Value)) :
    Except Failure DossierConfiguration := do
  let field (name : Text) : Value := (Value.lookup? name entries).getD .null
  let name ← match Value.lookup? "name" entries with
    | some name => name.shownOrFault
    | none => pure (files.nameOf directory)
  let documents ← documentsOf files directory (field "documents")
  let contents ← ContentsSettings.ofValue (field "table_of_contents")
  let bibliography ← Bibliography.ofValue (field "bibliography")
  let references ← referencesOf (field "references")
  let changes ← changesOf (field "compilation")
  pure ⟨name, documents, directory, contents, bibliography, references, changes⟩

/-- A configuration from a value, which must be a mapping. -/
def ofValue (files : FileTree) (directory : Path) (value : Value) : Except Failure DossierConfiguration :=
  match value.content with
  | .mapping entries => ofEntries files directory entries
  | _ => .error (.fault .notMapping)

def documentPaths (c : DossierConfiguration) : List Path :=
  c.documents.map fun document => c.location.under (.ofText document)

/-- Overlay references, bibliography, location and switches. -/
def applyTo (c : DossierConfiguration) (settings : CompileSettings) : CompileSettings :=
  c.changes.foldl SettingChange.apply
    { settings with
      references := mergeTexts settings.references c.references
      bibliography := c.bibliography.or settings.bibliography
      inputLocation := some c.location }

def applyToLoading (c : DossierConfiguration) (settings : LoadSettings) : LoadSettings :=
  c.changes.foldl SettingChange.applyToLoading settings

end DossierConfiguration

end LightMarkup
