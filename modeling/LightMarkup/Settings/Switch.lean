import LightMarkup.Settings

/-!
Switches: the settings of a compilation that are on or off, by name.
-/

namespace LightMarkup

inductive Switch where
  | embedLocalImages
  | embedRemoteImages
  | strictImageSources
  | parallel
  | collectErrors
  | strictLists
  | strictQuotes
  | strictCitations
  | strictReferences
  | strictGreekLetters
  | fastDraft
  deriving DecidableEq, Repr

namespace Switch

def all : List Switch := [
  .embedLocalImages, .embedRemoteImages, .strictImageSources, .parallel, .collectErrors, .strictLists, .strictQuotes,
  .strictCitations, .strictReferences, .strictGreekLetters, .fastDraft]

def name : Switch → Text
  | .embedLocalImages => "embed_local_image"
  | .embedRemoteImages => "embed_remote_image"
  | .strictImageSources => "strict_image_src_check"
  | .parallel => "parallelization"
  | .collectErrors => "collect_errors"
  | .strictLists => "strict_list_check"
  | .strictQuotes => "strict_focus_block_check"
  | .strictCitations => "strict_cite_check"
  | .strictReferences => "strict_reference_check"
  | .strictGreekLetters => "strict_greek_letters_check"
  | .fastDraft => "fast_draft"

def ofName? (name : Text) : Option Switch :=
  all.find? fun s => s.name = name

/-- A dossier may set every switch but the one that says how its own errors are reported. -/
def isForDossiers : Switch → Bool
  | .collectErrors => false
  | _ => true

def get (settings : CompileSettings) : Switch → Bool
  | .embedLocalImages => settings.embedLocalImages
  | .embedRemoteImages => settings.embedRemoteImages
  | .strictImageSources => settings.strictImageSources
  | .parallel => settings.parallel
  | .collectErrors => settings.collectErrors
  | .strictLists => settings.strictLists
  | .strictQuotes => settings.strictQuotes
  | .strictCitations => settings.strictCitations
  | .strictReferences => settings.strictReferences
  | .strictGreekLetters => settings.strictGreekLetters
  | .fastDraft => settings.fastDraft

def set (value : Bool) (settings : CompileSettings) : Switch → CompileSettings
  | .embedLocalImages => { settings with embedLocalImages := value }
  | .embedRemoteImages => { settings with embedRemoteImages := value }
  | .strictImageSources => { settings with strictImageSources := value }
  | .parallel => { settings with parallel := value }
  | .collectErrors => { settings with collectErrors := value }
  | .strictLists => { settings with strictLists := value }
  | .strictQuotes => { settings with strictQuotes := value }
  | .strictCitations => { settings with strictCitations := value }
  | .strictReferences => { settings with strictReferences := value }
  | .strictGreekLetters => { settings with strictGreekLetters := value }
  | .fastDraft => { settings with fastDraft := value }

@[simp] theorem get_set (value : Bool) (settings : CompileSettings) (s : Switch) : s.get (s.set value settings) = value := by
  cases s <;> rfl

theorem get_set_of_ne (value : Bool) (settings : CompileSettings) (s other : Switch) (distinct : other ≠ s) :
    other.get (s.set value settings) = other.get settings := by
  cases s <;> cases other <;> simp_all [get, set]

end Switch

end LightMarkup
