import LightMarkup.Dossier.Configuration
import LightMarkup.Proofs.Logged

/-!
What the checks of a configuration demand of its values. A value that meets all demands is taken. One of the wrong form is
refused as an invalid configuration; but authors are run through and numbers are shown without a check, and what cannot be
is not refused, it breaks the run.
-/

namespace LightMarkup

-- What is demanded of a value: its form, that its collections are some, and that its numbers can be shown.
structure Demands where
  form : Prop
  iterable : Prop
  showable : Prop

namespace Demands

def Met (demands : Demands) : Prop :=
  demands.form ∧ demands.iterable ∧ demands.showable

def none : Demands := ⟨True,True,True⟩

def onForm (form : Prop) : Demands := ⟨form,True,True⟩

def onIterable (iterable : Prop) : Demands := ⟨True,iterable,True⟩

def onShowable (showable : Prop) : Demands := ⟨True,True,showable⟩

def and (one two : Demands) : Demands :=
  ⟨one.form ∧ two.form,one.iterable ∧ two.iterable,one.showable ∧ two.showable⟩

def each {ι : Type} (items : List ι) (demands : ι → Demands) : Demands :=
  ⟨∀ item ∈ items, (demands item).form,∀ item ∈ items, (demands item).iterable,∀ item ∈ items, (demands item).showable⟩

end Demands

-- A demand that is not met, and the failure that says so.
def Demands.Broken (demands : Demands) (failure : Failure) : Prop :=
  (∃ cause, failure = .invalidConfiguration cause) ∧ ¬ demands.form ∨
    failure = .fault .notIterable ∧ ¬ demands.iterable ∨ failure = .fault .outOfRange ∧ ¬ demands.showable

-- A check that succeeds where its demands are met, and says by its failure which of them is not.
structure Checks {α : Type} (x : Except Failure α) (demands : Demands) : Prop where
  met : ∀ a, x = .ok a → demands.Met
  broken : ∀ failure, x = .error failure → demands.Broken failure

theorem Demands.Broken.imp {one two : Demands} {failure : Failure} (broken : one.Broken failure)
    (form : two.form → one.form) (iterable : two.iterable → one.iterable) (showable : two.showable → one.showable) :
    two.Broken failure :=
  Or.imp (And.imp_right (mt form)) (Or.imp (And.imp_right (mt iterable)) (And.imp_right (mt showable))) broken

namespace Checks

variable {α β : Type} {x : Except Failure α} {f : α → Except Failure β} {one two : Demands}

theorem ok (a : α) (met : one.Met) : Checks (.ok a) one where
  met _ _ := met
  broken _ stopped := by cases stopped

theorem error {failure : Failure} (broken : one.Broken failure) : Checks (.error failure : Except Failure α) one where
  met _ taken := by cases taken
  broken _ stopped := Except.error.inj stopped ▸ broken

theorem refused {cause : ConfigurationError} (unmet : ¬ one.form) :
    Checks (.error (.invalidConfiguration cause) : Except Failure α) one :=
  .error (Or.inl ⟨⟨cause,rfl⟩,unmet⟩)

-- What meets all demands is taken.
theorem taken_iff (checks : Checks x one) : (∃ a, x = .ok a) ↔ one.Met := by
  refine ⟨fun ⟨a,taken⟩ => checks.met a taken,fun ⟨form,iterable,showable⟩ => ?_⟩
  cases run : x with
  | ok a => exact ⟨a,rfl⟩
  | error failure =>
    rcases checks.broken failure run with ⟨_,unmet⟩ | ⟨_,unmet⟩ | ⟨_,unmet⟩
    · exact absurd form unmet
    · exact absurd iterable unmet
    · exact absurd showable unmet

theorem congr (checks : Checks x one) (form : one.form ↔ two.form) (iterable : one.iterable ↔ two.iterable)
    (showable : one.showable ↔ two.showable) : Checks x two where
  met a taken := by
    obtain ⟨form',iterable',showable'⟩ := checks.met a taken
    exact ⟨form.mp form',iterable.mp iterable',showable.mp showable'⟩
  broken failure stopped := (checks.broken failure stopped).imp form.mpr iterable.mpr showable.mpr

theorem bind (first : Checks x one) (later : ∀ a, Checks (f a) two) : Checks (x >>= f) (one.and two) where
  met b taken := by
    obtain ⟨a,run,taken⟩ := Failure.bind_ok.mp taken
    obtain ⟨form,iterable,showable⟩ := first.met a run
    obtain ⟨form',iterable',showable'⟩ := (later a).met b taken
    exact ⟨⟨form,form'⟩,⟨iterable,iterable'⟩,⟨showable,showable'⟩⟩
  broken failure stopped := by
    cases run : x with
    | error other =>
      rw [run] at stopped
      cases stopped
      exact (first.broken _ run).imp And.left And.left And.left
    | ok a =>
      rw [run] at stopped
      exact ((later a).broken failure stopped).imp And.right And.right And.right

theorem map {f : α → β} (checks : Checks x one) : Checks (x >>= fun a => pure (f a)) one :=
  have both : Checks (x >>= fun a => pure (f a)) (one.and .none) := checks.bind fun a => .ok (f a) ⟨trivial,trivial,trivial⟩
  both.congr (and_iff_left trivial) (and_iff_left trivial) (and_iff_left trivial)

theorem mapped {f : α → β} (checks : Checks x one) : Checks (x.map f) one := by
  have same : x.map f = x >>= fun a => pure (f a) := by cases x <;> rfl
  exact same ▸ checks.map

-- A check of every item in order.
theorem nil {ι : Type} {a : α} {demands : ι → Demands} : Checks (.ok a) (.each [] demands) :=
  .ok a ⟨List.forall_mem_nil _,List.forall_mem_nil _,List.forall_mem_nil _⟩

theorem cons {ι : Type} {item : ι} {items : List ι} {demands : ι → Demands}
    (checks : Checks x ((demands item).and (.each items demands))) : Checks x (.each (item :: items) demands) := by
  simpa only [Demands.each,Demands.and,List.forall_mem_cons] using checks

theorem mapM {ι : Type} {items : List ι} {f : ι → Except Failure α} {demands : ι → Demands}
    (each : ∀ item ∈ items, Checks (f item) (demands item)) : Checks (items.mapM f) (.each items demands) := by
  induction items with
  | nil => exact .nil
  | cons item items ih =>
    obtain ⟨here,others⟩ := List.forall_mem_cons.mp each
    rw [List.mapM_cons]
    exact .cons (.bind here fun _ => .map (ih others))

end Checks

namespace Value

variable {key : Text} {entries items : List (Value × Value)}

-- The value under a key, or nothing.
def under (key : Text) (entries : List (Value × Value)) : Value :=
  (lookup? key entries).getD .null

def shownDemands (value : Value) : Demands :=
  .onShowable (value.isShowable = true)

-- What stands under a key is shown, if there is something.
def shownUnder (key : Text) (entries : List (Value × Value)) : Demands :=
  .onShowable (∀ value, lookup? key entries = some value → value.isShowable = true)

def entryDemands (entry : Value × Value) : Demands :=
  entry.1.shownDemands.and entry.2.shownDemands

theorem shownOrFault_checks (value : Value) : Checks value.shownOrFault value.shownDemands := by
  unfold shownOrFault
  split
  · exact .ok _ ⟨trivial,trivial,‹_›⟩
  · exact .error (Or.inr (Or.inr ⟨rfl,‹_›⟩))

theorem shownUnder_checks (key : Text) (entries : List (Value × Value)) (standard : Text) :
    Checks (match lookup? key entries with
      | some value => value.shownOrFault
      | none => .ok standard) (shownUnder key entries) := by
  unfold shownUnder
  cases lookup? key entries with
  | some value => exact value.shownOrFault_checks.congr .rfl .rfl (by simp [shownDemands,Demands.onShowable])
  | none => exact .ok standard ⟨trivial,trivial,by simp [Demands.onShowable]⟩

theorem shownEntries_checks (entries : List (Value × Value)) : Checks (shownEntries entries) (.each entries entryDemands) :=
  .map (.mapM fun _ _ => .bind (shownOrFault_checks _) fun _ => .map (shownOrFault_checks _))

-- A refusal that shows the value it is about.
theorem refusing_checks {α : Type} (value : Value) (cause : Text → ConfigurationError) : Checks (do
    let shown ← value.shownOrFault
    throw (.invalidConfiguration (cause shown)) : Except Failure α) ⟨False,True,value.isShowable = true⟩ where
  met record taken := by
    obtain ⟨_,_,none⟩ := Failure.bind_ok.mp taken
    cases none
  broken failure stopped := by
    unfold shownOrFault at stopped
    split at stopped
    · cases stopped
      exact Or.inl ⟨⟨_,rfl⟩,id⟩
    · cases stopped
      exact Or.inr (Or.inr ⟨rfl,‹_›⟩)

theorem texts?_isSome {items : List Value} : (texts? items).isSome = true ↔ ∀ item ∈ items, item.isText = true := by
  induction items with
  | nil => simp [texts?]
  | cons item items ih => cases item <;> simp [texts?,isText,ih]

-- A list of texts, or else a failure.
theorem texts?_checks {α : Type} (items : List Value) (cause : ConfigurationError) (f : List Text → α) :
    Checks (match texts? items with
      | some names => .ok (f names)
      | none => .error (.invalidConfiguration cause)) (.onForm (∀ item ∈ items, item.isText = true)) := by
  cases found : texts? items with
  | some names => exact .ok _ ⟨texts?_isSome.mp (by rw [found]; rfl),trivial,trivial⟩
  | none =>
    refine .refused fun all => ?_
    have texts := texts?_isSome.mpr all
    rw [found] at texts
    cases texts

end Value

namespace Exclusion

-- Nothing, a word for everything or nothing, or a list of texts.
def Form (value : Value) : Prop :=
  match value.content with
  | .null => True
  | .text t => t = "nothing" ∨ t = "everything"
  | .list items => ∀ item ∈ items, item.isText = true
  | _ => False

theorem ofValue_checks (value : Value) : Checks (ofValue value) (.onForm (Form value)) := by
  unfold ofValue Form
  cases value.content with
  | null => exact .ok _ ⟨trivial,trivial,trivial⟩
  | text t =>
    dsimp only
    split
    · exact .ok _ ⟨Or.inl ‹_›,trivial,trivial⟩
    · split
      · exact .ok _ ⟨Or.inr ‹_›,trivial,trivial⟩
      · exact .refused (not_or.mpr ⟨‹_›,‹_›⟩)
  | list items => exact Value.texts?_checks items .excludedNotList fun names => ofList (names.map Text.toString)
  | _ => exact .refused id

end Exclusion

namespace BibliographyRecord

open Value

-- Authors may be absent, a text, or anything that has members, which are shown.
def authorsDemands (value : Value) : Demands where
  form := True
  iterable := value.isNull = true ∨ value.isText = true ∨ value.members?.isSome = true
  showable := ∀ author ∈ value.members?.getD [], author.isShowable = true

-- A record is a mapping with a title. Its year, its address and its description may be anything.
def demands (key value : Value) : Demands :=
  match value.content with
  | .mapping entries =>
    match lookup? "title" entries with
    | some title => title.shownDemands.and (authorsDemands (under "authors" entries))
    | none => ⟨False,True,key.isShowable = true⟩
  | _ => ⟨False,True,key.isShowable = true⟩

theorem authorsOf_checks (value : Value) : Checks (authorsOf value) (authorsDemands value) := by
  unfold authorsOf
  split
  · exact .ok _ ⟨trivial,Or.inl rfl,List.forall_mem_nil _⟩
  · exact .ok _ ⟨trivial,Or.inr (Or.inl rfl),List.forall_mem_nil _⟩
  · rename_i absent single
    cases found : value.members? with
    | some authors =>
      have checks : Checks (authors.mapM shownOrFault) (.each authors shownDemands) :=
        .mapM fun author _ => author.shownOrFault_checks
      exact checks.map.congr (by simp [Demands.each,shownDemands,Demands.onShowable,authorsDemands])
        (by simp [Demands.each,shownDemands,Demands.onShowable,authorsDemands,found])
        (by simp [Demands.each,shownDemands,Demands.onShowable,authorsDemands,found])
    | none =>
      refine .error (Or.inr (Or.inl ⟨rfl,?_⟩))
      rintro (isNull | isText | some)
      · cases value with
        | null => exact absent rfl
        | _ => cases isNull
      · cases value with
        | text t => exact single t rfl
        | _ => cases isText
      · rw [found] at some
        cases some

theorem ofValue_checks (key value : Value) : Checks (ofValue key value) (demands key value) := by
  unfold ofValue demands
  cases value.content with
  | mapping entries =>
    dsimp only
    cases lookup? "title" entries with
    | none => exact refusing_checks key .recordWithoutTitle
    | some title => exact .bind (shownOrFault_checks _) fun title => .map (authorsOf_checks _)
  | _ => exact refusing_checks key .recordWithoutTitle

theorem ofEntries_checks (entries : List (Value × Value)) :
    Checks (ofEntries entries) (.each entries fun entry => (demands entry.1 entry.2).and entry.1.shownDemands) := by
  induction entries with
  | nil => exact .nil
  | cons entry entries ih =>
    refine .cons ?_
    have checks : Checks (ofEntries (entry :: entries)) _ := .bind (ofValue_checks entry.1 entry.2) fun record =>
      .bind entry.1.shownOrFault_checks fun shown => .map ih
    exact checks.congr and_assoc.symm and_assoc.symm and_assoc.symm

end BibliographyRecord

namespace Bibliography

open Value

def recordsDemands (entries : List (Value × Value)) : Demands :=
  match (lookup? "records" entries).map Value.content with
  | none => .none
  | some (.mapping records) =>
    .each records fun entry => (BibliographyRecord.demands entry.1 entry.2).and entry.1.shownDemands
  | some _ => .onForm False

def demands (value : Value) : Demands :=
  match value.content with
  | .null => .none
  | .mapping entries => (recordsDemands entries).and (shownUnder "title" entries)
  | _ => .onForm False

theorem recordsOf_checks (entries : List (Value × Value)) : Checks (recordsOf entries) (recordsDemands entries) := by
  unfold recordsOf recordsDemands
  cases (lookup? "records" entries).map Value.content with
  | none => exact .ok _ ⟨trivial,trivial,trivial⟩
  | some records =>
    cases records with
    | mapping records => exact BibliographyRecord.ofEntries_checks records
    | _ => exact .refused id

theorem ofValue_checks (value : Value) : Checks (ofValue value) (demands value) := by
  unfold ofValue demands
  cases value.content with
  | null => exact .ok _ ⟨trivial,trivial,trivial⟩
  | mapping entries => exact .bind (recordsOf_checks entries) fun records => .map (shownUnder_checks "title" entries _)
  | _ => exact .refused id

end Bibliography

namespace ContentsSettings

open Value

-- A level, if there is one, is a number that a heading can have.
def LevelForm (entries : List (Value × Value)) : Prop :=
  ∀ value, lookup? "maximum_heading_level" entries = some value →
    ∃ level, value.integer? = some level ∧ 1 ≤ level ∧ level ≤ HeadingConstruct.maximumLevel

def demands (value : Value) : Demands :=
  match value.content with
  | .null => .none
  | .bool _ => .none
  | .mapping entries => (Demands.onForm (LevelForm entries)).and (shownUnder "title" entries)
  | _ => .onForm False

theorem levelOf_checks (entries : List (Value × Value)) : Checks (levelOf entries) (.onForm (LevelForm entries)) := by
  unfold levelOf LevelForm
  cases lookup? "maximum_heading_level" entries with
  | none => exact .ok _ ⟨by rintro value ⟨⟩,trivial,trivial⟩
  | some value =>
    dsimp only
    cases number : value.integer? with
    | none =>
      refine .refused fun form => ?_
      obtain ⟨level,some,_⟩ := form value rfl
      rw [number] at some
      cases some
    | some level =>
      dsimp only
      split
      · rename_i inside
        rw [Bool.and_eq_true,decide_eq_true_eq,decide_eq_true_eq] at inside
        refine .ok _ ⟨?_,trivial,trivial⟩
        rintro other ⟨⟩
        exact ⟨level,number,inside⟩
      · rename_i outside
        refine .refused fun form => ?_
        obtain ⟨other,same,inside⟩ := form value rfl
        cases number.symm.trans same
        exact outside (by simpa using inside)

theorem ofValue_checks (value : Value) : Checks (ofValue value) (demands value) := by
  unfold ofValue demands
  cases value.content with
  | null => exact .ok _ ⟨trivial,trivial,trivial⟩
  | bool b =>
    cases b with
    | false => exact .ok _ ⟨trivial,trivial,trivial⟩
    | true => exact .ok _ ⟨trivial,trivial,trivial⟩
  | mapping entries => exact .bind (levelOf_checks entries) fun level => .map (shownUnder_checks "title" entries _)
  | _ => exact .refused id

end ContentsSettings

namespace DossierConfiguration

open Value

def referencesDemands (value : Value) : Demands :=
  match value.content with
  | .null => .none
  | .mapping entries => .each entries entryDemands
  | _ => .onForm False

-- A change is to the excluded constructs, or to a switch that a dossier may set.
def ChangeForm (key value : Value) : Prop :=
  (key = .text SettingChange.excludedName ∧ Exclusion.Form value) ∨
    ∃ switch : Switch, key = .text switch.name ∧ switch.isForDossiers = true ∧ ∃ b, value = .bool b

def changesDemands (value : Value) : Demands :=
  match value.content with
  | .null => .none
  | .mapping entries => .each entries fun entry => ⟨ChangeForm entry.1 entry.2,True,entry.1.isShowable = true⟩
  | _ => .onForm False

theorem referencesOf_checks (value : Value) : Checks (referencesOf value) (referencesDemands value) := by
  unfold referencesOf referencesDemands
  cases value.content with
  | null => exact .ok _ ⟨trivial,trivial,trivial⟩
  | mapping entries => exact shownEntries_checks entries
  | _ => exact .refused id

-- The switch that a key names, if a dossier may set it.
theorem switch_named {key : Value} {switch : Switch}
    (found : (if key.isText then (Switch.ofName? key.shown).filter Switch.isForDossiers else none) = some switch) :
    key = .text switch.name ∧ switch.isForDossiers = true := by
  split at found
  · cases key with
    | text t =>
      obtain ⟨named,allowed⟩ := Option.filter_eq_some_iff.mp found
      have same := List.find?_some named
      exact ⟨congrArg Value.text (of_decide_eq_true same).symm,allowed⟩
    | _ => contradiction
  · cases found

theorem switch_found {switch : Switch} (allowed : switch.isForDossiers = true) :
    (Switch.ofName? switch.name).filter Switch.isForDossiers = some switch ∧ switch.name ≠ SettingChange.excludedName := by
  have named : ∀ switch ∈ Switch.all, Switch.ofName? switch.name = some switch ∧
      switch.name ≠ SettingChange.excludedName := by
    unfold Switch.ofName? Switch.name SettingChange.excludedName
    repeat rw [Text.ofString_ofList]
    decide +kernel
  have known : switch ∈ Switch.all := by cases switch <;> decide
  obtain ⟨found,other⟩ := named switch known
  exact ⟨by rw [found,Option.filter_some,if_pos allowed],other⟩

theorem changeOf_checks (key value : Value) :
    Checks (changeOf key value) ⟨ChangeForm key value,True,key.isShowable = true⟩ := by
  unfold changeOf
  split
  · rename_i isExcluded
    have same : key = .text SettingChange.excludedName := by
      cases key with
      | text t => exact congrArg Value.text (eq_of_beq isExcluded)
      | _ => cases isExcluded
    subst same
    refine (Exclusion.ofValue_checks value).mapped.congr ⟨fun form => Or.inl ⟨rfl,form⟩,?_⟩ .rfl (iff_of_true trivial rfl)
    rintro (⟨_,form⟩ | ⟨switch,named,allowed,_⟩)
    · exact form
    · exact absurd (Value.text.inj named).symm (switch_found allowed).2
  · rename_i notExcluded
    have other : ∀ {P : Prop}, key = .text SettingChange.excludedName ∧ P → False := by
      rintro P ⟨rfl,_⟩
      exact notExcluded (beq_self_eq_true _)
    split
    · rename_i changed b found
      obtain ⟨named,allowed⟩ := switch_named found
      exact .ok _ ⟨Or.inr ⟨changed,named,allowed,b,rfl⟩,trivial,by rw [named]; rfl⟩
    · rename_i changed found notBool
      refine .refused ?_
      rintro (excluded | ⟨_,_,_,b,isBool⟩)
      · exact other excluded
      · exact notBool b isBool
    · rename_i absent
      have unknown : ∀ {value : Value}, ¬ ChangeForm key value := by
        rintro value (excluded | ⟨switch,rfl,allowed,_⟩)
        · exact other excluded
        · rw [isText,if_pos rfl,shown,(switch_found allowed).1] at absent
          cases absent
      have checks : Checks (do
          let shown ← key.shownOrFault
          throw (.invalidConfiguration (.unknownSetting shown)) : Except Failure SettingChange)
            ⟨False,True,key.isShowable = true⟩ := refusing_checks key .unknownSetting
      exact checks.congr (iff_of_false id unknown) .rfl .rfl

theorem changesOfEntries_checks (entries : List (Value × Value)) : Checks (changesOfEntries entries)
    (.each entries fun entry => ⟨ChangeForm entry.1 entry.2,True,entry.1.isShowable = true⟩) := by
  induction entries with
  | nil => exact .nil
  | cons entry entries ih => exact .cons (.bind (changeOf_checks entry.1 entry.2) fun change => .map ih)

theorem changesOf_checks (value : Value) : Checks (changesOf value) (changesDemands value) := by
  unfold changesOf changesDemands
  cases value.content with
  | null => exact .ok _ ⟨trivial,trivial,trivial⟩
  | mapping entries => exact changesOfEntries_checks entries
  | _ => exact .refused id

-- All that is demanded of the entries of a configuration file with a list of documents.
def demands (entries : List (Value × Value)) : Demands :=
  (shownUnder "name" entries).and <|
    (Demands.onForm (∃ items, (under "documents" entries).content = .list items ∧ ∀ item ∈ items, item.isText = true)).and <|
      (ContentsSettings.demands (under "table_of_contents" entries)).and <|
        (Bibliography.demands (under "bibliography" entries)).and <|
          (referencesDemands (under "references" entries)).and (changesDemands (under "compilation" entries))

-- The checks in order. Without a name the directory's is taken.
theorem ofEntries_eq (files : FileTree) (directory : Path) (entries : List (Value × Value)) :
    ofEntries files directory entries = (do
      let name ← (match lookup? "name" entries with
        | some name => name.shownOrFault
        | none => .ok (files.nameOf directory))
      let documents ← documentsOf files directory (under "documents" entries)
      let contents ← ContentsSettings.ofValue (under "table_of_contents" entries)
      let bibliography ← Bibliography.ofValue (under "bibliography" entries)
      let references ← referencesOf (under "references" entries)
      let changes ← changesOf (under "compilation" entries)
      pure ⟨name,documents,directory,contents,bibliography,references,changes⟩) := by
  unfold ofEntries
  cases lookup? "name" entries with
  | some name => rfl
  | none => rfl

theorem ofEntries_checks (files : FileTree) (directory : Path) {entries : List (Value × Value)} {items : List Value}
    (listed : (under "documents" entries).content = .list items) : Checks (ofEntries files directory entries) (demands entries) := by
  have documents : Checks (documentsOf files directory (under "documents" entries)) (.onForm (∃ items,
      (under "documents" entries).content = .list items ∧ ∀ item ∈ items, item.isText = true)) := by
    unfold documentsOf
    rw [listed]
    exact (texts?_checks items .documentsNotList id).congr
      ⟨fun texts => ⟨items,rfl,texts⟩,by rintro ⟨_,⟨⟩,texts⟩; exact texts⟩ .rfl .rfl
  rw [ofEntries_eq]
  exact .bind (shownUnder_checks "name" entries _) fun name => .bind documents fun names =>
    .bind (ContentsSettings.ofValue_checks _) fun contents => .bind (Bibliography.ofValue_checks _) fun bibliography =>
      .bind (referencesOf_checks _) fun references => .map (changesOf_checks _)

end DossierConfiguration
end LightMarkup
