import LightMarkup.Bibliography
import LightMarkup.Exclusion
import LightMarkup.Text.Path

/-!
Settings of loading and of compiling, and what a compilation knows about where it is.
-/

namespace LightMarkup

/-- The document and dossier at hand. -/
structure Context where
  document : Option Text
  dossier : Option Text
  deriving DecidableEq, Repr

/-- A bullet written `source` becomes `target` from level `level` on, or exactly there. -/
structure BulletRecord where
  source : Text
  target : Text
  level : Int := 0
  exact : Bool := false
  deriving DecidableEq, Repr

structure LoadSettings where
  strictQuotes : Bool := false
  strictLoadingRules : Bool := false
  maxDepth : Int := 32
  parallel : Bool := false
  deriving DecidableEq, Repr

def checkboxHtml : Text := "<div class=\"checkbox checkbox-unchecked\"></div>"
def checkedCheckboxHtml : Text := "<div class=\"checkbox checkbox-checked\"></div>"

def standardBullets : List BulletRecord := [
  { source := "-", target := "&bull;" },
  { source := "*", target := "&bull;" },
  { source := "+", target := "&bull;" },
  { source := "->", target := "&rarr;" },
  { source := "--", target := "&ndash;" },
  { source := "|", target := "&#8205;" },
  { source := "-[]", target := checkboxHtml },
  { source := "-[ ]", target := checkboxHtml },
  { source := "-[x]", target := checkedCheckboxHtml },
  { source := "-[X]", target := checkedCheckboxHtml }]

structure CompileSettings where
  embedLocalImages : Bool := true
  embedRemoteImages : Bool := false
  strictImageSources : Bool := false
  excluded : Exclusion := .nothing
  parallel : Bool := false
  collectErrors : Bool := false
  bullets : List BulletRecord := standardBullets
  strictLists : Bool := false
  strictQuotes : Bool := false
  strictCitations : Bool := false
  strictReferences : Bool := false
  strictGreekLetters : Bool := false
  references : List (Text × Text) := []
  bibliography : Option Bibliography := none
  fastDraft : Bool := false
  onlyDocuments : Option (List Text) := none
  inputLocation : Option Path := none
  deriving Repr

namespace LoadSettings

def keys : List Text := [
  "strict_focus_block_check", "strict_paragraph_loading_rules_check", "max_recursion_depth", "parallelization"]

end LoadSettings

/-- Refuse changes under keys that are not known. -/
def checkKeys (known changed : List Text) : Except Failure Unit :=
  let unknown := changed.filter fun key => !known.contains key
  if unknown.isEmpty then .ok () else .error (.fault (.unknownSettings (Text.sort unknown.eraseDups)))

/-- The value under a key, or nothing. -/
def lookupText (key : Text) (entries : List (Text × Text)) : Option Text :=
  entries.lookup key

/-- Put the entries of `changes` in the place of those under the same keys; the others come after. -/
def mergeTexts (entries changes : List (Text × Text)) : List (Text × Text) :=
  changes.foldl
    (fun entries (key, value) =>
      if entries.any (·.1 == key) then entries.map fun entry => if entry.1 = key then (key, value) else entry
      else entries ++ [(key, value)])
    entries

namespace CompileSettings

def keys : List Text := [
  "embed_local_image", "embed_remote_image", "strict_image_src_check", "excluded_modifiers", "parallelization",
  "collect_errors", "list_bullet_records", "strict_list_check", "strict_focus_block_check", "strict_cite_check",
  "strict_reference_check", "strict_greek_letters_check", "references", "bibliography", "fast_draft",
  "compile_only_documents", "input_location"]

def reference? (settings : CompileSettings) (key : Text) : Option Text :=
  lookupText key settings.references

/-- Every problem that can be an error is one. -/
def strict (settings : CompileSettings) : CompileSettings :=
  { settings with
    strictImageSources := true, strictLists := true, strictQuotes := true, strictCitations := true,
    strictReferences := true, strictGreekLetters := true }

end CompileSettings

end LightMarkup
