import LightMarkup.Document.Compile

/-!
Pages: compiled HTML in a standalone frame.
-/

namespace LightMarkup

namespace Page

def before : Text :=
  "<!DOCTYPE html>\n<html lang=\"en\">\n<head>\n<meta charset=\"utf-8\">\n<meta name=\"viewport\" content=\"width=device-width, initial-scale=1\">\n<title>"

def between : Text := "</title>\n</head>\n<body>\n"

def after : Text := "\n</body>\n</html>\n"

def assemble (title : Text) (bodies : List Text) : Text :=
  before ++ Html.escape title ++ between ++ Text.join "\n" bodies ++ after

/-- The page of a single document. -/
def ofText (catalogue : Catalogue) (loading : LoadSettings) (settings : CompileSettings) (resources : Resources)
    (name t : Text) : Logged Text := do
  let document ← Document.ofText catalogue loading name t
  let d ← Compiler.document ⟨catalogue.inline, settings, ⟨none, none⟩, resources⟩ document
  pure (assemble name [d.content])

end Page

end LightMarkup
