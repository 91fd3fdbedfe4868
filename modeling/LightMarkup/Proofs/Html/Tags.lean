import LightMarkup.Proofs.Html.Scanning

/-!
The tags of an HTML text, and whether they match like brackets. A text that closes every element it opens, and no other, can
stand anywhere or be left out without a trace in what is open around it.
-/

namespace LightMarkup
namespace Html

inductive Tag where
  | opening (name : Text)
  | closing (name : Text)
  deriving DecidableEq, Repr

def Tag.ofName : Text → Tag
  | '/' :: name => .closing name
  | name => .opening name

-- The name of a tag, backwards, behind one more character. A space ends it, and values are no part of it.
def held (place next : Place) (name : Text) (c : Char) : Text :=
  match next with
  | .tag => if place = .value ∨ ' ' ∈ name then name else c :: name
  | .value => name
  | _ => []

def nameOf (name : Text) : Text :=
  name.reverse.takeWhile (· != ' ')

def ended (place next : Place) (name : Text) : List Tag :=
  if place = .tag ∧ next = .text then [.ofName (nameOf name)] else []

def tagsFrom : Place → Text → Text → List Tag
  | _, _, [] => []
  | place, name, c :: t =>
    match step place c with
    | none => []
    | some next => ended place next name ++ tagsFrom next (held place next name c) t

-- The tags of a text in order, comments left out.
def tags (t : Text) : List Tag :=
  tagsFrom .text [] t

-- What is open behind some tags, the innermost element first. A tag closes nothing but that.
def openBehind : List Text → List Tag → Option (List Text)
  | open_, [] => some open_
  | open_, .opening name :: tags => openBehind (name :: open_) tags
  | [], .closing _ :: _ => none
  | innermost :: open_, .closing name :: tags => if innermost = name then openBehind open_ tags else none

def Balanced (tags : List Tag) : Prop :=
  openBehind [] tags = some []

instance (tags : List Tag) : Decidable (Balanced tags) :=
  inferInstanceAs (Decidable (openBehind [] tags = some []))

-- The same elements are open behind both, whatever was open before.
def SameOpen (one two : List Tag) : Prop :=
  ∀ open_, openBehind open_ one = openBehind open_ two

variable {place mid : Place} {name t u : Text} {c : Char} {one two more others : List Tag} {open_ behind around : List Text}

theorem openBehind_append (open_ : List Text) (one two : List Tag) :
    openBehind open_ (one ++ two) = (openBehind open_ one).bind (openBehind · two) := by
  induction one generalizing open_ with
  | nil => rfl
  | cons tag one ih =>
    cases tag with
    | opening name => exact ih _
    | closing name =>
      cases open_ with
      | nil => rfl
      | cons innermost open_ =>
        simp only [List.cons_append,openBehind]
        split
        · exact ih _
        · rfl

-- What is open further out plays no part in what is closed.
theorem openBehind_around (closes : openBehind open_ one = some behind) :
    openBehind (open_ ++ around) one = some (behind ++ around) := by
  induction one generalizing open_ with
  | nil =>
    cases closes
    rfl
  | cons tag one ih =>
    cases tag with
    | opening name => exact ih closes
    | closing name =>
      cases open_ with
      | nil => cases closes
      | cons innermost open_ =>
        simp only [List.cons_append,openBehind] at closes ⊢
        split at closes
        · rw [if_pos ‹_›]
          exact ih closes
        · cases closes

theorem SameOpen.refl (one : List Tag) : SameOpen one one :=
  fun _ => rfl

theorem SameOpen.symm (same : SameOpen one two) : SameOpen two one :=
  fun open_ => (same open_).symm

theorem SameOpen.trans (first : SameOpen one two) (next : SameOpen two more) : SameOpen one more :=
  fun open_ => (first open_).trans (next open_)

theorem SameOpen.append (first : SameOpen one two) (next : SameOpen more others) : SameOpen (one ++ more) (two ++ others) := by
  intro open_
  rw [openBehind_append,openBehind_append,first open_]
  exact Option.bind_congr fun _ _ => next _

theorem SameOpen.balanced (same : SameOpen one two) : Balanced one ↔ Balanced two := by
  rw [Balanced,Balanced,same []]

-- Balanced tags leave no trace.
theorem balanced_iff : Balanced one ↔ SameOpen one [] :=
  ⟨fun balanced _ => openBehind_around balanced,fun same => same []⟩

theorem Balanced.same (one_ : Balanced one) (two_ : Balanced two) : SameOpen one two :=
  (balanced_iff.mp one_).trans (balanced_iff.mp two_).symm

-- The name that is held where a text has been read.
def nameFrom : Place → Text → Text → Text
  | _, name, [] => name
  | place, name, c :: t =>
    match step place c with
    | none => name
    | some next => nameFrom next (held place next name c) t

theorem tagsFrom_append (read : scan place t = some mid) (name u : Text) :
    tagsFrom place name (t ++ u) = tagsFrom place name t ++ tagsFrom mid (nameFrom place name t) u := by
  induction t generalizing place name with
  | nil =>
    cases read
    rfl
  | cons c t ih =>
    rw [scan_cons] at read
    obtain ⟨next,here,later⟩ := Option.bind_eq_some_iff.mp read
    simp only [List.cons_append,tagsFrom,nameFrom,here]
    rw [ih later,List.append_assoc]

-- Outside of tags no name is held.
theorem tagsFrom_text (name t : Text) : tagsFrom .text name t = tags t := by
  cases t with
  | nil => rfl
  | cons c t =>
    by_cases less : c = '<'
    · subst less
      rfl
    · by_cases greater : c = '>'
      · subst greater
        rfl
      · have here : step .text c = some .text := by simp [step,less,greater]
        rw [tags,tagsFrom,tagsFrom,here]
        rfl

theorem tags_append (closed : Closed t) (u : Text) : tags (t ++ u) = tags t ++ tags u := by
  rw [tags,tagsFrom_append closed,tagsFrom_text _ u,← tags]

theorem tags_inert (inert : Inert t) : tags t = [] := by
  induction t with
  | nil => rfl
  | cons c t ih =>
    obtain ⟨here,later⟩ := List.forall_mem_cons.mp inert
    have stays : step .text c = some .text := by simp [step,here]
    rw [tags,tagsFrom,stays]
    exact ih later

-- There are no tags in a comment.
theorem tagsFrom_comment (open_ : ∀ c ∈ t, c ≠ '>') (n : Nat) (name : Text) : tagsFrom (.comment n) name t = [] := by
  induction t generalizing n name with
  | nil => rfl
  | cons c t ih =>
    obtain ⟨here,later⟩ := List.forall_mem_cons.mp open_
    have stays : ∃ m, step (.comment n) c = some (.comment m) := by
      by_cases hyphen : c = '-'
      · exact ⟨min (n + 1) 2,by simp [step,hyphen]⟩
      · exact ⟨0,by simp [step,hyphen,here]⟩
    obtain ⟨m,stays⟩ := stays
    rw [tagsFrom,stays]
    exact ih later m _

-- A value adds nothing to its tag.
theorem tagsFrom_value (quiet : Quiet t) (name u : Text) : tagsFrom .value name (t ++ u) = tagsFrom .value name u := by
  induction t with
  | nil => rfl
  | cons c t ih =>
    obtain ⟨here,later⟩ := List.forall_mem_cons.mp quiet
    have stays : step .value c = some .value := by simp [step,here]
    rw [List.cons_append,tagsFrom,stays]
    exact ih later

-- Neither does what stands behind a space.
theorem tagsFrom_spaced (quiet : Quiet t) (spaced : ' ' ∈ name) (u : Text) :
    tagsFrom .tag name (t ++ u) = tagsFrom .tag name u := by
  induction t with
  | nil => rfl
  | cons c t ih =>
    obtain ⟨here,later⟩ := List.forall_mem_cons.mp quiet
    have stays : step .tag c = some .tag := by simp [step,here]
    rw [List.cons_append,tagsFrom,stays]
    simp only [held,spaced,or_true,↓reduceIte]
    exact ih later

-- Attributes, or none: they leave the name of their tag as it is.
def Attributes (t : Text) : Prop :=
  ∀ name, ∃ same, nameOf same = nameOf name ∧ ∀ u, tagsFrom .tag name (t ++ u) = tagsFrom .tag same u

theorem Attributes.nil : Attributes [] :=
  fun name => ⟨name,rfl,fun _ => rfl⟩

theorem Attributes.append (first : Attributes t) (next : Attributes u) : Attributes (t ++ u) := by
  intro name
  obtain ⟨one,same,reads⟩ := first name
  obtain ⟨two,same',reads'⟩ := next one
  exact ⟨two,same'.trans same,fun rest => by rw [List.append_assoc,reads,reads']⟩

theorem nameOf_spaced (name : Text) (unspaced : ' ' ∉ name) : nameOf (' ' :: name) = nameOf name := by
  have other : ∀ c ∈ name.reverse, (c != ' ') = true := by
    intro c member
    rw [bne_iff_ne]
    rintro rfl
    exact unspaced (List.mem_reverse.mp member)
  have whole : (name.reverse ++ []).takeWhile (· != ' ') = name.reverse ++ [] := List.takeWhile_append_of_pos other
  rw [List.append_nil] at whole
  rw [nameOf,nameOf,List.reverse_cons,List.takeWhile_append_of_pos other,whole,
    List.takeWhile_cons_of_neg (by decide),List.append_nil]

theorem attr_attributes {key value : Text} (named : Quiet key) (quiet : Quiet value) :
    Attributes (attr key value) := by
  have reads : ∀ {name : Text}, ' ' ∈ name → ∀ u,
      tagsFrom .tag name (key ++ '=' :: '"' :: (value ++ '"' :: u)) = tagsFrom .tag name u := by
    intro name spaced u
    rw [tagsFrom_spaced named spaced]
    have equals : step .tag '=' = some .tag := rfl
    have opens : step .tag '"' = some .value := rfl
    have closes : step .value '"' = some .tag := rfl
    simp only [tagsFrom,equals,opens,held,spaced,or_true,↓reduceIte]
    rw [tagsFrom_value quiet]
    simp [tagsFrom,closes,held,ended]
  have text : ∀ u, attr key value ++ u = ' ' :: (key ++ '=' :: '"' :: (value ++ '"' :: u)) := by
    intro u
    rw [attr]
    repeat rw [Text.ofString_ofList]
    simp
  have space : step .tag ' ' = some .tag := rfl
  intro name
  by_cases spaced : ' ' ∈ name
  · refine ⟨name,rfl,fun u => ?_⟩
    rw [text,tagsFrom,space]
    simp only [held,spaced,or_true,↓reduceIte]
    exact reads spaced u
  · refine ⟨' ' :: name,nameOf_spaced name spaced,fun u => ?_⟩
    rw [text,tagsFrom,space]
    simp only [held,spaced,or_false,reduceCtorEq,↓reduceIte]
    exact reads (List.mem_cons_self ..) u

theorem idAttribute_attributes (identifier : Option Text) : Attributes (idAttribute identifier) := by
  cases identifier with
  | none => exact .nil
  | some identifier => exact attr_attributes (by rw [Text.ofString_ofList]; simp [Quiet]) (escapeAttribute_quiet _)

theorem nuidAttribute_attributes (nuid : Option Text) : Attributes (nuidAttribute nuid) := by
  cases nuid with
  | none => exact .nil
  | some nuid => exact attr_attributes (by rw [Text.ofString_ofList]; simp [Quiet]) (escapeAttribute_quiet _)

theorem styleAttributes_attributes (baseClasses : Text) (style : Option Text) : Attributes (styleAttributes baseClasses style) := by
  have semicolon : Quiet (";" : Text) := by rw [Text.ofString_ofList]; simp [Quiet]
  have if_some : ∀ {absent : Bool} {t : Text}, Attributes t → Attributes (if absent then [] else t) := by
    intro absent t attributes
    cases absent with
    | true => exact .nil
    | false => exact attributes
  exact (if_some (attr_attributes (by rw [Text.ofString_ofList]; simp [Quiet]) (escapeAttribute_quiet _))).append
    (if_some (attr_attributes (by rw [Text.ofString_ofList]; simp [Quiet]) ((escapeAttribute_quiet _).append semicolon)))

-- A tag is the same tag with attributes.
theorem tags_attributes (opens : scan .text t = some .tag) (attributes : Attributes u) :
    tags (t ++ u ++ ['>']) = tags (t ++ ['>']) := by
  obtain ⟨same,named,reads⟩ := attributes (nameFrom .text [] t)
  rw [tags,tags,List.append_assoc,tagsFrom_append opens,tagsFrom_append opens,reads]
  have closes : step .tag '>' = some .text := rfl
  simp [tagsFrom,closes,ended,named]

end Html
end LightMarkup
