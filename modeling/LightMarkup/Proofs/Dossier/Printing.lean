import Mathlib
import LightMarkup.Proofs.Construct.Citing
import LightMarkup.Proofs.Construct.Completing
import LightMarkup.Proofs.Dossier.Checking
import LightMarkup.Proofs.Html.Scanning

/-!
From a configuration file to the items of its bibliography. The checks let any year, address and description through: an
address or description that is no text stops the bibliography, and the year is written without an escape.
-/

namespace LightMarkup

-- Text that an escape would change holds an angle bracket.
theorem Html.escape_same {t : Text} : escape t = t ↔ Inert t := by
  constructor
  · exact fun same => same ▸ escape_inert t
  · intro inert
    refine escape_plain fun c member angle => ?_
    obtain ⟨notLess,notGreater⟩ := inert c member
    simp only [brackets,List.mem_cons,List.not_mem_nil,or_false] at angle
    exact angle.elim notLess notGreater

open Value

namespace BibliographyRecord

-- What the bibliography needs of the fields that the checks let through.
structure Prints (record : BibliographyRecord) : Prop where
  year : record.year.isShowable = true
  url : record.url.isNull = true ∨ record.url.isText = true
  description : record.description.isNull = true ∨ record.description.isText = true

-- How the item of a record fails if it lacks some of it.
def Lacks (record : BibliographyRecord) (failure : Failure) : Prop :=
  failure = .fault .outOfRange ∧ ¬ record.year.isShowable = true ∨ failure = .fault .notText ∧
    ¬ ((record.url.isNull = true ∨ record.url.isText = true) ∧
      (record.description.isNull = true ∨ record.description.isText = true))

theorem Lacks.not_prints {record : BibliographyRecord} {failure : Failure} (lacks : record.Lacks failure) : ¬ record.Prints := by
  rintro ⟨year,url,description⟩
  rcases lacks with ⟨_,unmet⟩ | ⟨_,unmet⟩
  · exact unmet year
  · exact unmet ⟨url,description⟩

-- A record as the configuration file has it.
structure IsFrom (record : BibliographyRecord) (fields : List (Value × Value)) : Prop where
  title : ∃ title, lookup? "title" fields = some title ∧ record.title = title.shown
  authors : authorsOf (under "authors" fields) = .ok record.authors
  year : record.year = under "year" fields
  url : record.url = under "url" fields
  description : record.description = under "description" fields

variable {key value : Value} {record : BibliographyRecord} {entries : List (Value × Value)}
  {records : List (Text × BibliographyRecord)} {shown : Text}

theorem shownOrFault_ok (run : value.shownOrFault = .ok shown) : shown = value.shown := by
  unfold shownOrFault at run
  split at run
  · exact (Except.ok.inj run).symm
  · cases run

theorem ofValue_from (made : ofValue key value = .ok record) :
    ∃ fields, value.content = .mapping fields ∧ record.IsFrom fields := by
  have untitled : ∀ {record}, (withoutTitle key : Except Failure BibliographyRecord) ≠ .ok record := by
    intro record taken
    obtain ⟨_,_,none⟩ := Failure.bind_ok.mp taken
    cases none
  unfold ofValue at made
  split at made
  · rename_i fields isMapping
    split at made
    · exact absurd made untitled
    · rename_i title found
      obtain ⟨text,titled,made⟩ := Failure.bind_ok.mp made
      obtain ⟨authors,authored,same⟩ := Failure.bind_ok.mp made
      cases same
      exact ⟨fields,isMapping,⟨title,found,shownOrFault_ok titled⟩,authored,rfl,rfl,rfl⟩
  · exact absurd made untitled

-- Every record is one of the file's, under its key.
theorem ofEntries_from (made : ofEntries entries = .ok records) : ∀ item ∈ records, ∃ entry ∈ entries,
    item.1 = entry.1.shown ∧ ∃ fields, entry.2.content = .mapping fields ∧ item.2.IsFrom fields := by
  induction entries generalizing records with
  | nil =>
    cases made
    exact List.forall_mem_nil _
  | cons entry entries ih =>
    obtain ⟨record,here,made⟩ := Failure.bind_ok.mp made
    obtain ⟨shown,named,made⟩ := Failure.bind_ok.mp made
    obtain ⟨others,later,same⟩ := Failure.bind_ok.mp made
    cases same
    refine List.forall_mem_cons.mpr ⟨⟨entry,List.mem_cons_self ..,shownOrFault_ok named,ofValue_from here⟩,?_⟩
    intro item member
    obtain ⟨other,isOther,from_⟩ := ih later item member
    exact ⟨other,List.mem_cons_of_mem _ isOther,from_⟩

end BibliographyRecord

namespace Bibliography

variable {b : Bibliography} {key title : Text} {record : BibliographyRecord} {records sorted : List (Text × BibliographyRecord)}
  {value : Value} {item : Text} {failure : Failure}

theorem mem_insert {entry : Text × BibliographyRecord} (member : entry ∈ insert key record sorted) :
    entry = (key,record) ∨ entry ∈ sorted := by
  induction sorted with
  | nil => exact Or.inl (List.mem_singleton.mp member)
  | cons first rest ih =>
    obtain ⟨other,kept⟩ := first
    unfold insert at member
    split at member
    · exact (List.mem_cons.mp member).imp_right (List.mem_cons_of_mem _)
    · split at member
      · exact List.mem_cons.mp member
      · rcases List.mem_cons.mp member with rfl | later
        · exact Or.inr (List.mem_cons_self ..)
        · exact (ih later).imp_right (List.mem_cons_of_mem _)

theorem mem_ofList {entry : Text × BibliographyRecord} (member : entry ∈ (ofList title records).records) : entry ∈ records := by
  have step : ∀ (records sorted : List (Text × BibliographyRecord)),
      entry ∈ records.foldl (fun sorted entry => insert entry.1 entry.2 sorted) sorted →
        entry ∈ records ∨ entry ∈ sorted := by
    intro records
    induction records with
    | nil => exact fun sorted member => Or.inr member
    | cons first rest ih =>
      intro sorted member
      rcases ih _ member with later | early
      · exact Or.inl (List.mem_cons_of_mem _ later)
      · exact (mem_insert early).imp_left fun here => List.mem_cons.mpr (Or.inl here)
  exact (step records [] member).resolve_right List.not_mem_nil

-- The bibliography of a file has records of the file only, with their fields as they are there.
theorem ofValue_from (made : ofValue value = .ok (some b)) : ∀ item ∈ b.records, ∃ entries records,
    value.content = .mapping entries ∧ (under "records" entries).content = .mapping records ∧ ∃ entry ∈ records,
      item.1 = entry.1.shown ∧ ∃ fields, entry.2.content = .mapping fields ∧ item.2.IsFrom fields := by
  unfold ofValue at made
  split at made
  · cases made
  · rename_i entries isMapping
    obtain ⟨taken,read,made⟩ := Failure.bind_ok.mp made
    obtain ⟨title,_,same⟩ := Failure.bind_ok.mp made
    cases same
    intro item member
    have isTaken := mem_ofList member
    unfold recordsOf at read
    unfold under
    cases found : lookup? "records" entries with
    | none =>
      rw [found] at read
      cases read
      cases isTaken
    | some held =>
      rw [found,Option.map_some] at read
      cases content : held.content with
      | mapping records =>
        rw [content] at read
        exact ⟨entries,records,isMapping,by rw [found,Option.getD_some,content],
          BibliographyRecord.ofEntries_from read item isTaken⟩
      | _ => simp [content] at read
  · cases made

-- What is written for a field that is there.
def written (value : Value) (write : Text → Text) : Text :=
  if value.isNull then [] else write value.shown

def urlText (url : Text) : Text :=
  field "url" ("<a" ++ Html.attr "href" (Html.escapeAttribute url) ++ " class=\"link\">" ++ Html.escapeAttribute url ++ "</a>")

-- The item of a record with the year written in some way, and all other fields escaped.
def itemWith (writeYear : Text → Text) (key : Text) (record : BibliographyRecord) : Text :=
  "<li class=\"bibliography-item\"" ++ Html.attr "id" (Html.escapeAttribute (linkTo key).withoutSharp) ++ ">"
    ++ field "title" (Html.escape record.title) ++ authorsField record.authors
    ++ written record.year (fun year => field "year" (writeYear year)) ++ written record.url urlText
    ++ written record.description (fun text => field "description" (Html.escape text)) ++ "</li>"

theorem yearField_eq (value : Value) : yearField value =
    if value.isShowable then .ok (written value (field "year")) else .error (.fault .outOfRange) := by
  unfold yearField written shownOrFault
  cases value with
  | null => rfl
  | _ =>
    dsimp only
    split
    · rfl
    · rfl

-- A field for a text: nothing is written for nothing, and anything else but a text is a failure.
theorem textField_eq {write : Text → Text} {value : Value} {run : Except Failure Text}
    (steps : run = match value with
      | .null => .ok []
      | value => do
        let text ← textOf value
        pure (write text)) : run =
      if value.isNull = true ∨ value.isText = true then .ok (written value write) else .error (.fault .notText) := by
  subst steps
  cases value with
  | null => rfl
  | text t => rfl
  | _ => rfl

theorem urlField_eq (value : Value) : urlField value =
    if value.isNull = true ∨ value.isText = true then .ok (written value urlText) else .error (.fault .notText) :=
  textField_eq (by cases value <;> rfl)

theorem descriptionField_eq (value : Value) : descriptionField value =
    if value.isNull = true ∨ value.isText = true then
      .ok (written value fun text => field "description" (Html.escape text)) else .error (.fault .notText) :=
  textField_eq (by cases value <;> rfl)

theorem itemText_prints (prints : record.Prints) : itemText key record = .ok (itemWith id key record) := by
  rw [itemText,yearField_eq,urlField_eq,descriptionField_eq,if_pos prints.year,if_pos prints.url,if_pos prints.description]
  rfl

theorem itemText_lacks (stopped : itemText key record = .error failure) : record.Lacks failure := by
  unfold BibliographyRecord.Lacks
  rw [itemText,yearField_eq,urlField_eq,descriptionField_eq] at stopped
  split at stopped
  · split at stopped
    · split at stopped
      · cases stopped
      · rename_i unmet
        cases stopped
        exact Or.inr ⟨rfl,fun both => unmet both.2⟩
    · rename_i unmet
      cases stopped
      exact Or.inr ⟨rfl,fun both => unmet both.1⟩
  · cases stopped
    exact Or.inl ⟨rfl,‹_›⟩

theorem itemText_ok (made : itemText key record = .ok item) : record.Prints := by
  rw [itemText,yearField_eq,urlField_eq,descriptionField_eq] at made
  split at made
  · split at made
    · split at made
      · exact ⟨‹_›,‹_›,‹_›⟩
      · cases made
    · cases made
  · cases made

theorem itemParts_prints (prints : ∀ entry ∈ records, entry.2.Prints) :
    itemParts records = .ok (records.map fun entry => .fixed (itemWith id entry.1 entry.2)) := by
  induction records with
  | nil => rfl
  | cons entry records ih =>
    obtain ⟨here,later⟩ := List.forall_mem_cons.mp prints
    rw [itemParts,itemText_prints here,ih later]
    rfl

theorem itemParts_lacks (stopped : itemParts records = .error failure) : ∃ entry ∈ records, entry.2.Lacks failure := by
  induction records with
  | nil => cases stopped
  | cons entry records ih =>
    rw [itemParts] at stopped
    cases here : itemText entry.1 entry.2 with
    | error other =>
      rw [here] at stopped
      cases stopped
      exact ⟨entry,List.mem_cons_self ..,itemText_lacks here⟩
    | ok item =>
      cases later : itemParts records with
      | error other =>
        rw [here,later] at stopped
        cases stopped
        obtain ⟨lacking,member,lacks⟩ := ih later
        exact ⟨lacking,List.mem_cons_of_mem _ member,lacks⟩
      | ok items =>
        rw [here,later] at stopped
        cases stopped

-- The items are made just if every record has what it needs.
theorem itemParts_ok {items : List Part} (made : itemParts records = .ok items) : ∀ entry ∈ records, entry.2.Prints := by
  have each := itemParts_made made
  clear made
  induction each with
  | nil => exact List.forall_mem_nil _
  | cons here _ ih =>
    obtain ⟨item,made,_⟩ := here
    exact List.forall_mem_cons.mpr ⟨itemText_ok made,ih⟩

-- Only the year is not escaped.
theorem itemWith_escaped (key : Text) (record : BibliographyRecord) :
    itemWith id key record = itemWith Html.escape key record ↔ record.year.isNull = true ∨ Html.Inert record.year.shown := by
  unfold itemWith
  simp only [List.append_cancel_right_eq,List.append_cancel_left_eq]
  unfold written
  split
  · exact iff_of_true rfl (Or.inl ‹_›)
  · rename_i some
    rw [or_iff_right some]
    simp only [field,List.append_cancel_right_eq,List.append_cancel_left_eq,id_eq]
    exact eq_comm.trans Html.escape_same

-- The parts of a bibliography with its title compiled.
def partsWith (b : Bibliography) (title : Draft) : List Part :=
  .fixed "<section class=\"bibliography\"><div class=\"bibliography-title\">" :: title.parts ++
    [.fixed "</div><ul class=\"bibliography-body\">"] ++
    b.records.map (fun entry => .fixed (itemWith id entry.1 entry.2)) ++ [.fixed "</ul></section>"]

-- A bibliography compiles as far as its title does and its records have what they need.
structure Compiles (compiler : Compiler) (b : Bibliography) : Prop where
  ok : ∀ draft, (b.compile compiler).outcome = .ok draft → (∀ entry ∈ b.records, entry.2.Prints) ∧
    ∃ title, (compiler.inlineText b.title).outcome = .ok title ∧ draft.parts = b.partsWith title
  fails : ∀ failure, (b.compile compiler).outcome = .error failure →
    (compiler.context.document = none ∧ ∃ identifier, failure = .missingDocumentName identifier) ∨
      ∃ entry ∈ b.records, entry.2.Lacks failure
  named : compiler.context.document.isSome = true →
    ((∃ draft, (b.compile compiler).outcome = .ok draft) ↔ ∀ entry ∈ b.records, entry.2.Prints)

theorem compile_compiles {compiler : Compiler} (members : compiler.constructs ⊆ Inline.standard)
    (lenient : compiler.settings.Lenient) (b : Bibliography) : b.Compiles compiler := by
  have ok : ∀ draft, (b.compile compiler).outcome = .ok draft → (∀ entry ∈ b.records, entry.2.Prints) ∧
      ∃ title, (compiler.inlineText b.title).outcome = .ok title ∧ draft.parts = b.partsWith title := by
    intro draft run
    obtain ⟨title,titled,run⟩ := Logged.outcome_bind_ok.mp run
    obtain ⟨items,made,run⟩ := Logged.outcome_bind_ok.mp run
    obtain ⟨_,_,same⟩ := Logged.outcome_bind_ok.mp run
    cases same
    have prints := itemParts_ok made
    cases (itemParts_prints prints).symm.trans made
    exact ⟨prints,title,titled,rfl⟩
  have fails : ∀ failure, (b.compile compiler).outcome = .error failure →
      (compiler.context.document = none ∧ ∃ identifier, failure = .missingDocumentName identifier) ∨
        ∃ entry ∈ b.records, entry.2.Lacks failure := by
    intro failure stopped
    rcases Logged.outcome_bind_error.mp stopped with untitled | ⟨title,_,stopped⟩
    · exact Or.inl (Draft.compile_nameless lenient members _ failure untitled)
    · rcases Logged.outcome_bind_error.mp stopped with lacking | ⟨items,_,stopped⟩
      · exact Or.inr (itemParts_lacks lacking)
      · rcases Logged.outcome_bind_error.mp stopped with none | ⟨_,_,none⟩
        · cases none
        · cases none
  refine ⟨ok,fails,fun named => ⟨fun ⟨draft,run⟩ => (ok draft run).1,fun prints => ?_⟩⟩
  cases run : (b.compile compiler).outcome with
  | ok draft => exact ⟨draft,rfl⟩
  | error failure =>
    rcases fails failure run with ⟨none,_⟩ | ⟨entry,member,lacks⟩
    · rw [none] at named
      cases named
    · exact absurd (prints entry member) lacks.not_prints

end Bibliography

namespace DossierConfiguration

open Bibliography

variable {files : FileTree} {directory : Path} {entries : List (Value × Value)} {c : DossierConfiguration} {b : Bibliography}

theorem ofEntries_bibliography (taken : ofEntries files directory entries = .ok c) :
    Bibliography.ofValue (under "bibliography" entries) = .ok c.bibliography := by
  rw [ofEntries_eq] at taken
  obtain ⟨name,_,taken⟩ := Failure.bind_ok.mp taken
  obtain ⟨documents,_,taken⟩ := Failure.bind_ok.mp taken
  obtain ⟨contents,_,taken⟩ := Failure.bind_ok.mp taken
  obtain ⟨bibliography,read,taken⟩ := Failure.bind_ok.mp taken
  obtain ⟨references,_,taken⟩ := Failure.bind_ok.mp taken
  obtain ⟨changes,_,same⟩ := Failure.bind_ok.mp taken
  cases same
  exact read

-- A configuration is taken if it meets all demands, and refused as invalid if its form is not right; only authors that
-- cannot be run through and numbers that cannot be shown break the checks. The bibliography of one that is taken compiles
-- if its records also have what the checks do not ask for, and then only the year is written as it is.
theorem entries_checked (files : FileTree) (directory : Path) {items : List Value}
    (listed : (under "documents" entries).content = .list items) :
    ((∃ c, ofEntries files directory entries = .ok c) ↔ (demands entries).Met) ∧
    (∀ failure, ofEntries files directory entries = .error failure → (demands entries).Broken failure) ∧
    ∀ c b, ofEntries files directory entries = .ok c → c.bibliography = some b →
      (∀ item ∈ b.records, ∃ fields records, (under "bibliography" entries).content = .mapping fields ∧
        (under "records" fields).content = .mapping records ∧ ∃ entry ∈ records, item.1 = entry.1.shown ∧
          ∃ fields, entry.2.content = .mapping fields ∧ item.2.IsFrom fields) ∧
      (∀ compiler : Compiler, compiler.constructs ⊆ Inline.standard → compiler.settings.Lenient → b.Compiles compiler) ∧
      ∀ item ∈ b.records, itemWith id item.1 item.2 = itemWith Html.escape item.1 item.2 ↔
        item.2.year.isNull = true ∨ Html.Inert item.2.year.shown := by
  have checks := ofEntries_checks files directory listed
  refine ⟨checks.taken_iff,checks.broken,fun c b taken isSome => ⟨?_,fun compiler members lenient => ?_,?_⟩⟩
  · exact ofValue_from (isSome ▸ ofEntries_bibliography taken)
  · exact compile_compiles members lenient b
  · exact fun item _ => itemWith_escaped item.1 item.2

-- A configuration file with no documents and a bibliography of one record.
def oneRecord (authors year url : Value) : List (Value × Value) := [
  (.text "documents",.list []),
  (.text "bibliography",.mapping [(.text "records",.mapping [(.text "k",.mapping [
    (.text "title",.text "t"),(.text "authors",authors),(.text "year",year),(.text "url",url)])])])]

def recordTaken (year url : Value) : DossierConfiguration :=
  ⟨[],[],⟨[],[]⟩,none,some ⟨"Bibliography",[("k",⟨"t",none,year,url,.null⟩)]⟩,[],[]⟩

theorem oneRecord_taken (year url : Value) :
    ofEntries ⟨[],[]⟩ ⟨[],[]⟩ (oneRecord .null year url) = .ok (recordTaken year url) := by
  cbv

def printing : Compiler :=
  ⟨Inline.standard,{},⟨some "d",none⟩,⟨⟨[],[]⟩,[]⟩⟩

theorem entries_checked_year : (under "documents" (oneRecord .null (.text "<i>") .null)).content = .list [] ∧
    (demands (oneRecord .null (.text "<i>") .null)).Met ∧ ∃ c b, c.bibliography = some b ∧
      ofEntries ⟨[],[]⟩ ⟨[],[]⟩ (oneRecord .null (.text "<i>") .null) = .ok c ∧
      (∃ draft, (b.compile printing).outcome = .ok draft) ∧
      ∃ item ∈ b.records, itemWith id item.1 item.2 ≠ itemWith Html.escape item.1 item.2 := by
  have listed : (under "documents" (oneRecord .null (.text "<i>") .null)).content = .list [] := by cbv
  have taken := oneRecord_taken (.text "<i>") .null
  obtain ⟨accepts,_,prints⟩ := entries_checked ⟨[],[]⟩ ⟨[],[]⟩ listed
  obtain ⟨_,compiles,escaped⟩ := prints _ _ taken rfl
  refine ⟨listed,accepts.mp ⟨_,taken⟩,_,_,rfl,taken,?_,_,List.mem_singleton_self _,?_⟩
  · refine ((compiles printing (List.Subset.refl _) ⟨rfl,rfl,rfl⟩).named rfl).mpr ?_
    exact List.forall_mem_singleton.mpr ⟨rfl,Or.inl rfl,Or.inl rfl⟩
  · rw [ne_eq,escaped _ (List.mem_singleton_self _)]
    rintro (none | inert)
    · cases none
    · exact (inert '<' (by decide +kernel)).1 rfl

-- Authors that are a number stop the checks, an address that is a number stops the bibliography, and tags in the year
-- reach the output.
theorem entries_unchecked :
    (¬ ∀ (files : FileTree) (directory : Path) (entries : List (Value × Value)) (items : List Value),
      (under "documents" entries).content = .list items → (∃ c, ofEntries files directory entries = .ok c) ∨
        ∃ cause, ofEntries files directory entries = .error (.invalidConfiguration cause)) ∧
    (¬ ∀ (files : FileTree) (directory : Path) (entries : List (Value × Value)) (c : DossierConfiguration) (b : Bibliography),
      ofEntries files directory entries = .ok c → c.bibliography = some b →
        (b.compile printing).outcome ≠ .error (.fault .notText)) ∧
    ¬ ∀ (files : FileTree) (directory : Path) (entries : List (Value × Value)) (c : DossierConfiguration) (b : Bibliography),
      ofEntries files directory entries = .ok c → c.bibliography = some b → ∀ item ∈ b.records, ∀ text,
        itemText item.1 item.2 = .ok text → text = itemWith Html.escape item.1 item.2 := by
  refine ⟨fun all => ?_,fun all => ?_,fun all => ?_⟩
  · have stopped : ofEntries ⟨[],[]⟩ ⟨[],[]⟩ (oneRecord (.int 5) .null .null) = .error (.fault .notIterable) := by cbv
    rcases all ⟨[],[]⟩ ⟨[],[]⟩ (oneRecord (.int 5) .null .null) [] (by cbv) with ⟨c,taken⟩ | ⟨cause,refused⟩
    · rw [stopped] at taken
      cases taken
    · rw [stopped] at refused
      cases refused
  · exact all _ _ _ _ _ (oneRecord_taken .null (.int 5)) rfl (by cbv)
  · have same := all _ _ _ _ _ (oneRecord_taken (.text "<i>") .null) rfl _ (List.mem_singleton_self _) _ rfl
    revert same
    decide +kernel

end DossierConfiguration
end LightMarkup
