import LightMarkup.Settings.Switch

/-!
Settings as values under keys: how configuration files and callers write them, and how they are shown.
-/

namespace LightMarkup

namespace Exclusion

def ofValue (value : Value) : Except Failure Exclusion :=
  match value.content with
  | .null => .ok .nothing
  | .text t =>
    if t = "nothing" then .ok .nothing
    else if t = "everything" then .ok .everything
    else .error (.invalidConfiguration .excludedNotList)
  | .list items =>
    match Value.texts? items with
    | some names => .ok (ofList (names.map Text.toString))
    | none => .error (.invalidConfiguration .excludedNotList)
  | _ => .error (.invalidConfiguration .excludedNotList)

def toValue : Exclusion → Value
  | .everything => .text "everything"
  | .nothing => .text "nothing"
  | .listed names => .list (names.map fun name => .text (Text.ofString name))

end Exclusion

namespace Value

def ofText? : Option Text → Value
  | none => .null
  | some t => .text t

def ofTexts (ts : List Text) : Value :=
  .list (ts.map .text)

def ofTextEntries (entries : List (Text × Text)) : Value :=
  .mapping (entries.map fun (key, t) => (.text key, .text t))

/-- A value as it is shown, if it can be. -/
def shownOrFault (value : Value) : Except Failure Text :=
  if value.isShowable then .ok value.shown else .error (.fault .outOfRange)

/-- Entries with their keys and values as they are shown. -/
def shownEntries (entries : List (Value × Value)) : Except Failure (List (Text × Text)) := do
  let shown ← entries.mapM fun (key, value) => do
    let key ← key.shownOrFault
    let value ← value.shownOrFault
    pure (key, value)
  pure (mergeTexts [] shown)

/-- The entries under text keys. -/
def entries (value : Value) : List (Text × Value) :=
  match value.content with
  | .mapping entries => entries.filterMap fun (key, value) =>
    match key with
    | .text t => some (t, value)
    | _ => none
  | _ => []

def items (value : Value) : List Value :=
  match value.content with
  | .list items => items
  | _ => []

/-- A title among other entries, in whatever form it was written. -/
def titleAmong (entries : List (Value × Value)) (standard : Text) : Except Failure Text :=
  match lookup? "title" entries with
  | some title => title.shownOrFault
  | none => .ok standard

end Value

namespace BibliographyRecord

/-- A single author, or the members of a collection. -/
def authorsOf : Value → Except Failure (Option (List Text))
  | .null => .ok none
  | .text author => .ok (some [author])
  | value =>
    match value.members? with
    | some authors => (authors.mapM Value.shownOrFault).map some
    | none => .error (.fault .notIterable)

def withoutTitle {α : Type} (key : Value) : Except Failure α := do
  let shown ← key.shownOrFault
  throw (.invalidConfiguration (.recordWithoutTitle shown))

def ofValue (key value : Value) : Except Failure BibliographyRecord :=
  match value.content with
  | .mapping entries =>
    match Value.lookup? "title" entries with
    | none => withoutTitle key
    | some title => do
      let field (name : Text) : Value := (Value.lookup? name entries).getD .null
      let title ← title.shownOrFault
      let authors ← authorsOf (field "authors")
      pure ⟨title, authors, field "year", field "url", field "description"⟩
  | _ => withoutTitle key

def ofEntries : List (Value × Value) → Except Failure (List (Text × BibliographyRecord))
  | [] => .ok []
  | (key, value) :: rest => do
    let record ← ofValue key value
    let shown ← key.shownOrFault
    let records ← ofEntries rest
    pure ((shown, record) :: records)

def toValue (record : BibliographyRecord) : Value :=
  .mapping [
    (.text "title", .text record.title),
    (.text "authors", match record.authors with
      | none => .null
      | some authors => .ofTexts authors),
    (.text "year", record.year), (.text "url", record.url), (.text "description", record.description)]

end BibliographyRecord

namespace Bibliography

def recordsOf (entries : List (Value × Value)) : Except Failure (List (Text × BibliographyRecord)) :=
  match (Value.lookup? "records" entries).map Value.content with
  | none => .ok []
  | some (.mapping records) => BibliographyRecord.ofEntries records
  | some _ => .error (.invalidConfiguration (.sectionNotMapping "bibliography.records"))

def ofValue (value : Value) : Except Failure (Option Bibliography) :=
  match value.content with
  | .null => .ok none
  | .mapping entries => do
    let records ← recordsOf entries
    let title ← Value.titleAmong entries "Bibliography"
    pure (some (ofList title records))
  | _ => .error (.invalidConfiguration (.sectionNotMapping "bibliography"))

/-- The records are a list, so that their order shows. -/
def toValue (b : Bibliography) : Value :=
  .mapping [
    (.text "title", .text b.title),
    (.text "records", .list (b.records.map fun (key, record) => .list [.text key, record.toValue]))]

end Bibliography

namespace BulletRecord

/-- A source and a target, then a level and whether only that level counts. -/
def ofValue : Value → BulletRecord
  | .list (source :: target :: rest) =>
    let record : BulletRecord := { source := source.shown, target := target.shown }
    match rest with
    | [] => record
    | [level] => { record with level := level.integer?.getD 0 }
    | level :: exact :: _ => { record with level := level.integer?.getD 0, exact := exact.isTrue }
  | _ => { source := [], target := [] }

def toValue (record : BulletRecord) : Value :=
  .list [.text record.source, .text record.target, .int record.level, .bool record.exact]

end BulletRecord

namespace CompileSettings

def referencesOf : Value → List (Text × Text)
  | .mapping entries => mergeTexts [] (entries.map fun (key, value) => (key.shown, value.shown))
  | _ => []

def optionalTexts : Value → Option (List Text)
  | .list items => some (items.map Value.shown)
  | _ => none

def optionalPath : Value → Option Path
  | .text t => some (Path.ofText t)
  | _ => none

/-- Set what a key stands for. A key that is not known, or a value that cannot stand there, changes nothing. -/
def change (settings : CompileSettings) (key : Text) (value : Value) : CompileSettings :=
  match Switch.ofName? key with
  | some switch => switch.set value.isTrue settings
  | none =>
    if key = "excluded_modifiers" then
      match Exclusion.ofValue value with
      | .ok excluded => { settings with excluded := excluded }
      | .error _ => settings
    else if key = "list_bullet_records" then { settings with bullets := value.items.map BulletRecord.ofValue }
    else if key = "references" then { settings with references := referencesOf value }
    else if key = "bibliography" then
      match Bibliography.ofValue value with
      | .ok bibliography => { settings with bibliography := bibliography }
      | .error _ => settings
    else if key = "compile_only_documents" then { settings with onlyDocuments := optionalTexts value }
    else if key = "input_location" then { settings with inputLocation := optionalPath value }
    else settings

def changeAll (settings : CompileSettings) (changes : List (Text × Value)) : CompileSettings :=
  changes.foldl (fun settings (key, value) => settings.change key value) settings

/-- Change settings, if every key is known. -/
def withChanges (settings : CompileSettings) (changes : List (Text × Value)) : Except Failure CompileSettings := do
  checkKeys keys (changes.map (·.1))
  pure (settings.changeAll changes)

def toValue (settings : CompileSettings) : Value :=
  .mapping ((Switch.all.map fun switch => (.text switch.name, .bool (switch.get settings))) ++ [
    (.text "excluded_modifiers", settings.excluded.toValue),
    (.text "list_bullet_records", .list (settings.bullets.map BulletRecord.toValue)),
    (.text "references", .ofTextEntries settings.references),
    (.text "bibliography", match settings.bibliography with
      | none => .null
      | some bibliography => bibliography.toValue),
    (.text "compile_only_documents", match settings.onlyDocuments with
      | none => .null
      | some names => .ofTexts names),
    (.text "input_location", .ofText? (settings.inputLocation.map Path.toText))])

end CompileSettings

namespace LoadSettings

/-- Set what a key stands for; a key that is not known changes nothing. -/
def change (settings : LoadSettings) (key : Text) (value : Value) : LoadSettings :=
  if key = "strict_focus_block_check" then { settings with strictQuotes := value.isTrue }
  else if key = "strict_paragraph_loading_rules_check" then { settings with strictLoadingRules := value.isTrue }
  else if key = "max_recursion_depth" then { settings with maxDepth := value.integer?.getD settings.maxDepth }
  else if key = "parallelization" then { settings with parallel := value.isTrue }
  else settings

def changeAll (settings : LoadSettings) (changes : List (Text × Value)) : LoadSettings :=
  changes.foldl (fun settings (key, value) => settings.change key value) settings

/-- Change settings, if every key is known. -/
def withChanges (settings : LoadSettings) (changes : List (Text × Value)) : Except Failure LoadSettings := do
  checkKeys keys (changes.map (·.1))
  pure (settings.changeAll changes)

def toValue (settings : LoadSettings) : Value :=
  .mapping [
    (.text "strict_focus_block_check", .bool settings.strictQuotes),
    (.text "strict_paragraph_loading_rules_check", .bool settings.strictLoadingRules),
    (.text "max_recursion_depth", .int settings.maxDepth),
    (.text "parallelization", .bool settings.parallel)]

end LoadSettings

end LightMarkup
