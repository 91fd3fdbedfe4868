import LightMarkup.Proofs.Document.Linking
import LightMarkup.Proofs.Loading.Rematching

/-!
Spellings of a link to an anchor. A document's own name and the name of its file lead to the same anchor, and so does the
name in front of the hash wherever the link stands. The address of a page is told apart from a name by a colon or a slash
before the hash, so no identifier behind it matters.
-/

namespace LightMarkup

variable {t u name identifier : Text} {x : Char}

-- What is read in front of a character stands in front of it.
theorem Text.prefix_before {rest : Text} (free : x ∉ t) (begins : t <+: u ++ x :: rest) : t <+: u := by
  obtain ⟨behind,same⟩ := begins
  rcases List.append_eq_append_iff.mp same with ⟨more,whole,_⟩ | ⟨more,whole,split⟩
  · exact ⟨more,whole.symm⟩
  · cases more with
    | nil => exact ⟨[],by simp [whole]⟩
    | cons y more =>
      obtain ⟨rfl,_⟩ := List.cons.inj split
      exact absurd (by simp [whole]) free

namespace Anchor

/-- A document's name: words and hyphens. -/
structure IsName (name : Text) : Prop where
  nonempty : name ≠ []
  words : ∀ x ∈ name, CharSet.wordOrHyphen.contains x = true

-- The characters of a name with or without the ending of its file.
def isFileChar (x : Char) : Bool :=
  CharSet.wordOrHyphen.contains x || x == '.'

theorem extension : (".nmd" : Text) = ['.','n','m','d'] := by
  rw [Text.ofString_eq]
  rfl

theorem isFileChar_eq (x : Char) : isFileChar x = ((Text.isWord x || x == '-') || x == '.') := rfl

theorem fileChar_solid (isFile : isFileChar x = true) : Text.isBlank x = false := by
  cases blank : Text.isBlank x with
  | false => rfl
  | true =>
    have apart : x ≠ '-' ∧ x ≠ '.' := by
      constructor <;> rintro rfl <;> exact absurd blank (by decide)
    simp [isFileChar_eq,Text.blank_not_word blank,apart] at isFile

section

variable (isName : IsName name)
include isName

theorem IsName.fileChars : ∀ x ∈ name, isFileChar x = true :=
  fun x member => by rw [isFileChar,isName.words x member,Bool.true_or]

theorem IsName.file_fileChars : ∀ x ∈ name ++ ".nmd", isFileChar x = true := by
  have ending : ['.','n','m','d'].all isFileChar = true := by decide +kernel
  rw [extension]
  exact List.forall_mem_append.mpr ⟨isName.fileChars,List.all_eq_true.mp ending⟩

theorem IsName.dropExtension : dropExtension name = name := by
  refine if_neg fun ending => ?_
  have member : '.' ∈ name := (List.isSuffixOf_iff_suffix.mp ending).subset (by rw [extension]; decide)
  exact absurd (isName.words _ member) (by decide +kernel)

end

theorem dropExtension_file (name : Text) : Anchor.dropExtension (name ++ ".nmd") = name := by
  rw [Anchor.dropExtension,Text.dropEnding,if_pos (List.isSuffixOf_iff_suffix.mpr (List.suffix_append _ _)),
    List.length_append,Nat.add_sub_cancel,List.take_left]

end Anchor

namespace Link

open Anchor Pattern

-- An address has a colon or a slash in it, and no hash before that.
theorem address_hashless (found : (addressPattern.matchStart? t).isSome = true) :
    ∃ read, read <+: t ∧ '#' ∉ read ∧ (':' ∈ read ∨ '/' ∈ read) := by
  obtain ⟨m,found⟩ := Option.isSome_iff_exists.mp found
  obtain ⟨start,isWay⟩ := matchAt_way found
  have needed : addressPattern.needs (fun set => set == .one ':' || set == .one '/') = true := by
    rw [addressPattern]
    repeat rw [Text.ofString_ofList]
    rfl
  have hashless : addressPattern.Only (· ≠ '#') := Block.avoids_only <| by
    rw [addressPattern]
    repeat rw [Text.ofString_ofList]
    rfl
  obtain ⟨read,y,set,reads,member,mark,inSet⟩ := needs_reads needed isWay
  obtain ⟨same,again,free⟩ := ways_only hashless _ _ isWay
  obtain rfl := reads.unique again
  refine ⟨read,?_,fun hash => free _ hash rfl,?_⟩
  · rw [start] at reads
    exact ⟨_,reads.1.symm⟩
  · rcases Bool.or_eq_true_iff.mp mark with mark | mark
    · obtain rfl : set = .one ':' := eq_of_beq mark
      exact Or.inl ((eq_of_beq inSet : y = ':') ▸ member)
    · obtain rfl : set = .one '/' := eq_of_beq mark
      exact Or.inr ((eq_of_beq inSet : y = '/') ▸ member)

-- A name in front of a hash leads to an anchor of the document with that name.
theorem ofText_named (some : name ≠ []) (chars : ∀ x ∈ name, isFileChar x = true)
    (known : (documentPattern.fullMatch? name).isSome = true) (trimmed : Text.trimEnd identifier = identifier)
    (elsewhere : Option Text) :
    ofText (name ++ '#' :: identifier) elsewhere = .ok (.anchor name identifier) := by
  have hash : Text.isBlank '#' = false := by decide
  have hashless : ∀ x ∈ name, (x != '#') = true := by
    intro x member
    rw [bne_iff_ne]
    rintro rfl
    exact absurd (chars _ member) (by decide +kernel)
  have noAddress : (addressPattern.matchStart? (name ++ '#' :: identifier)).isSome = false := by
    rw [Bool.eq_false_iff]
    intro found
    obtain ⟨read,begins,free,mark⟩ := address_hashless found
    have inside := (Text.prefix_before free begins).subset
    rcases mark with colon | slash
    · exact absurd (chars _ (inside colon)) (by decide +kernel)
    · exact absurd (chars _ (inside slash)) (by decide +kernel)
  have whole : Text.trim (name ++ '#' :: identifier) = name ++ '#' :: identifier := by
    have ends : Text.trimEnd ('#' :: identifier) = '#' :: identifier := by rw [Text.trimEnd_cons hash,trimmed]
    obtain ⟨x,more,rfl⟩ := List.exists_cons_of_ne_nil some
    have solid := fileChar_solid (chars x (List.mem_cons_self ..))
    rw [List.cons_append,Text.trim_marked solid,← List.cons_append,
      Text.trimEnd_append (by rw [ends]; exact List.cons_ne_nil _ _),ends]
  have first : (name ++ '#' :: identifier).takeWhile (· != '#') = name := by
    rw [List.takeWhile_append_of_pos hashless]
    simp
  have second : (name ++ '#' :: identifier).dropWhile (· != '#') = '#' :: identifier := by
    rw [List.dropWhile_append_of_pos hashless]
    simp
  obtain ⟨x,more,rfl⟩ := List.exists_cons_of_ne_nil some
  have other : x ≠ '#' := by simpa using hashless x (List.mem_cons_self ..)
  rw [ofText,whole]
  simp only [noAddress,first,second,known,Bool.false_eq_true,↓reduceIte]
  split
  · rename_i identifier begins
    exact absurd (List.cons.inj begins).1 other
  · rfl

/-- The ways to write a link to an identifier in a document: in the document itself, under its own name or under that of its
file, and from anywhere, with either name. -/
def spellings (name identifier : Text) (elsewhere : Option Text) : List (Text × Option Text) := [
  ('#' :: identifier,some name),('#' :: identifier,some (name ++ ".nmd")),
  (name ++ '#' :: identifier,elsewhere),(name ++ ".nmd" ++ '#' :: identifier,elsewhere)]

section

variable (isName : IsName name)
include isName

theorem document_known : (documentPattern.fullMatch? name).isSome = true := by
  have accepts := (plus_accepts isName.nonempty isName.words).seq (maybe_accepts_none (literal ".nmd"))
  rw [List.append_nil] at accepts
  exact Option.isSome_iff_exists.mpr accepts.full

theorem file_known : (documentPattern.fullMatch? (name ++ ".nmd")).isSome = true :=
  Option.isSome_iff_exists.mpr
    ((plus_accepts isName.nonempty isName.words).seq (literal_accepts ".nmd").maybe).full

-- All spellings lead to one anchor: the one that the identifier is given in the document.
theorem spellings_agree (trimmed : Text.trimEnd identifier = identifier) (elsewhere : Option Text) :
    ∃ own : Link, toAnchor identifier (some name) = .ok own ∧ own.isInternal = true ∧
      inDocument identifier (some name) = .ok own.withoutSharp ∧
      Html.idAttribute (some own.withoutSharp) = Html.attr "id" own.withoutSharp ∧
      (∀ c ∈ own.withoutSharp, isIdentifierChar c = true) ∧
      ∀ spelled ∈ spellings name identifier elsewhere, ∃ link, ofText spelled.1 spelled.2 = .ok link ∧
        link.isInternal = true ∧ link.build = '#' :: own.withoutSharp := by
  have hash : Text.isBlank '#' = false := by decide
  have own : Text.trim ('#' :: identifier) = '#' :: identifier := by
    rw [Text.trim_marked hash,Text.trimEnd_cons hash,trimmed]
  have file : Anchor.build (name ++ ".nmd") identifier = Anchor.build name identifier := by
    rw [Anchor.build,Anchor.build,dropExtension_file,isName.dropExtension]
  have plain : Html.escapeAttribute (Anchor.build name identifier) = Anchor.build name identifier :=
    Html.escapeAttribute_plain fun c member => identifier_unescaped (build_chars _ _ c member)
  have someFile : name ++ (".nmd" : Text) ≠ [] := by simp [isName.nonempty]
  refine ⟨.anchor name identifier,rfl,rfl,rfl,by rw [Html.idAttribute,withoutSharp,plain],build_chars _ _,?_⟩
  simp only [spellings,List.forall_mem_cons,List.not_mem_nil,false_implies,implies_true,and_true]
  refine ⟨⟨_,ofText_hash own rfl,rfl,rfl⟩,⟨_,ofText_hash own rfl,rfl,congrArg ('#' :: ·) file⟩,
    ⟨_,ofText_named isName.nonempty isName.fileChars (document_known isName) trimmed elsewhere,rfl,rfl⟩,
    ⟨_,ofText_named someFile isName.file_fileChars (file_known isName) trimmed elsewhere,rfl,congrArg ('#' :: ·) file⟩⟩

end

-- Hashes, colons and slashes behind the first hash are only characters of the identifier.
theorem spellings_agree_marks : IsName "Ch-1" ∧ Text.trimEnd "A#b: c/d" = "A#b: c/d" ∧
    ∀ spelled ∈ [("#A#b: c/d",some "Ch-1"),("#A#b: c/d",some "Ch-1.nmd"),("Ch-1#A#b: c/d",some "x"),
        ("Ch-1.nmd#A#b: c/d",some "x")],
      ∃ link, ofText (spelled.1 : String) (spelled.2.map Text.ofString) = .ok link ∧ link.isInternal = true ∧
        link.build = "#ch-1-a-b--c-d" := by
  have isName : IsName "Ch-1" := by
    have words : ['C','h','-','1'].all CharSet.wordOrHyphen.contains = true := by decide +kernel
    rw [Text.ofString_ofList]
    exact ⟨List.cons_ne_nil _ _,List.all_eq_true.mp words⟩
  have trimmed : Text.trimEnd "A#b: c/d" = "A#b: c/d" := by
    rw [Text.ofString_ofList]
    decide_cbv
  obtain ⟨own,known,_,_,_,_,each⟩ := spellings_agree isName trimmed (some "x")
  obtain rfl : .anchor "Ch-1" "A#b: c/d" = own := Except.ok.inj known
  have built : '#' :: Anchor.build "Ch-1" "A#b: c/d" = "#ch-1-a-b--c-d" := by
    rw [Anchor.build,Anchor.dropExtension]
    repeat rw [Text.ofString_ofList]
    decide +kernel
  rw [withoutSharp,built] at each
  refine ⟨isName,trimmed,?_⟩
  simpa [spellings,Text.ofString_eq] using each

end Link
end LightMarkup
