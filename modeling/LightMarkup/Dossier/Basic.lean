import LightMarkup.Dossier.Configuration
import LightMarkup.Page

/-!
Dossiers: documents under one name, with the table of contents and the bibliography that belong to them.

A dossier keeps what has been compiled, also when a later step of the compilation fails.
-/

namespace LightMarkup

structure Dossier where
  name : Text
  documents : List Document
  configuration : Option DossierConfiguration := none
  contents : Option Draft := none
  bibliography : Option Draft := none
  deriving Repr

namespace Dossier

def document? (dossier : Dossier) (name : Text) : Option Document :=
  dossier.documents.find? (·.name == name)

/-- The page of everything that has been compiled. -/
def page (dossier : Dossier) : Text :=
  let drafts := dossier.contents.toList ++ dossier.documents.filterMap Document.compiled ++ dossier.bibliography.toList
  Page.assemble dossier.name (drafts.map Draft.content)

/-- The documents of a directory's configuration. -/
def loadDocuments (catalogue : Catalogue) (settings : LoadSettings) (files : FileTree) (paths : List Path) :
    Logged (List Document) :=
  let load (path : Path) : Logged Document :=
    match files.readText path with
    | .error fault =>
      if fault.isAboutFiles then .fail (.resource (.unreadable path.toText)) else .fail (.fault fault)
    | .ok t => Document.ofText catalogue settings (Document.nameOfPath path) t
  FanOut.run settings.parallel false (paths.map load)

/-- Load the documents that a configuration lists. -/
def ofConfiguration (catalogue : Catalogue) (settings : LoadSettings) (files : FileTree)
    (configuration : DossierConfiguration) : Logged Dossier := do
  let paths := configuration.documentPaths
  .info .loading
    ("loading dossier " ++ inTicks configuration.name ++ " (" ++ Text.ofNat paths.length ++ " documents)")
  let documents ← loadDocuments catalogue (configuration.applyToLoading settings) files paths
  pure { name := configuration.name, documents := documents, configuration := some configuration }

def settingsFor (dossier : Dossier) (settings : CompileSettings) : CompileSettings :=
  match dossier.configuration with
  | none => settings
  | some configuration => configuration.applyTo settings

/-- Whether a document is compiled: in a fast draft only the documents that are named. -/
def selects (settings : CompileSettings) (document : Document) : Bool :=
  match settings.onlyDocuments with
  | none => true
  | some names => !settings.fastDraft || names.contains document.name

/-- Give the results of the selected documents, in order, to those documents. -/
def keepCompiled (selected : Document → Bool) : List (Option Draft) → List Document → List Document
  | _, [] => []
  | [], documents => documents
  | result :: results, document :: documents =>
    if selected document then
      match result with
      | some draft => { document with compiled := some draft } :: keepCompiled selected results documents
      | none => document :: keepCompiled selected results documents
    else document :: keepCompiled selected (result :: results) documents

def compileContents (compiler : Compiler) (dossier : Dossier) : Dossier × Logged Unit :=
  match dossier.configuration.bind DossierConfiguration.contents with
  | none => (dossier, pure ())
  | some settings =>
    if settings.included then
      let compiled := (TableOfContents.ofDocuments dossier.documents settings).compile compiler
      ({ dossier with contents := compiled.value?.or dossier.contents }, compiled.discard)
    else (dossier, pure ())

def compileBibliography (compiler : Compiler) (dossier : Dossier) : Dossier × Logged Unit :=
  match compiler.settings.bibliography with
  | none => (dossier, pure ())
  | some bibliography =>
    let compiled := bibliography.compile compiler
    ({ dossier with bibliography := compiled.value?.or dossier.bibliography }, compiled.discard)

/-- Run a step on a dossier if those before it succeeded. -/
def andThen (step : Dossier → Dossier × Logged Unit) : Dossier × Logged Unit → Dossier × Logged Unit
  | (dossier, done) =>
    match done.outcome with
    | .error failure => (dossier, ⟨done.log, .error failure⟩)
    | .ok () =>
      let (next, more) := step dossier
      (next, ⟨done.log ++ more.log, more.outcome⟩)

def announce (dossier : Dossier) (settings : CompileSettings) (selected : List Document) : Logged Unit := do
  if settings.fastDraft && settings.onlyDocuments.isSome then
    Logged.info .compilation ("fast draft: compiling " ++ Text.ofNat selected.length ++ " of "
      ++ Text.ofNat dossier.documents.length ++ " documents")
  Logged.info .compilation
    ("compiling dossier " ++ inTicks dossier.name ++ " (" ++ Text.ofNat selected.length ++ " documents)")

def compileDocuments (compiler : Compiler) (dossier : Dossier) : Dossier × Logged Unit :=
  let selected := dossier.documents.filter (selects compiler.settings)
  let units := selected.map compiler.document
  let reached := FanOut.reached compiler.settings.parallel compiler.settings.collectErrors units
  ({ dossier with documents := keepCompiled (selects compiler.settings) reached dossier.documents },
    do
      dossier.announce compiler.settings selected
      let _ ← compiler.fanOut units
      pure ())

/-- Compile the selected documents, then the table of contents, then the bibliography. The configuration overlays
the settings. -/
def compile (constructs : List Construct) (settings : CompileSettings) (resources : Resources) (dossier : Dossier) :
    Dossier × Logged Unit :=
  let compiler : Compiler := ⟨constructs, dossier.settingsFor settings, ⟨none, some dossier.name⟩, resources⟩
  andThen (compileBibliography compiler) (andThen (compileContents compiler) (compileDocuments compiler dossier))

end Dossier

end LightMarkup
