import LightMarkup.Catalogue
import LightMarkup.Proofs.Construct.Calling

/-!
References in escaped text. An angle bracket is an entity by the time that references are looked for, and the ampersand of
the entity can end one: a key between an ampersand and an angle bracket is taken for a reference that the text does not
hold. Where no such key is found, escaping makes no difference to the references, and everything else comes out escaped.
-/

namespace LightMarkup

-- Two relations between lists of which one is a function on a part of the first list.
theorem forall₂_partial {α β : Type} {R : α → β → Prop} {holds : α → Prop} {f : α → β} {xs : List α} {ys : List β}
    (each : ∀ x ∈ xs, ∀ y, R x y ↔ holds x ∧ y = f x) : List.Forall₂ R xs ys ↔ (∀ x ∈ xs, holds x) ∧ ys = xs.map f := by
  induction xs generalizing ys with
  | nil => simp
  | cons x xs ih =>
    obtain ⟨here,later⟩ := List.forall_mem_cons.mp each
    cases ys with
    | nil => simp
    | cons y ys => simp [List.forall₂_cons,here,ih later]; tauto

namespace CompileSettings

/-- What a reference stands for, or nothing. -/
def valueOf (settings : CompileSettings) (key : Text) : Text :=
  (settings.reference? key).getD []

/-- The settings know the key of every reference in the text. -/
def Knows (settings : CompileSettings) (t : Text) : Prop :=
  ∀ m ∈ Inline.reference.pattern.occurrences t, (settings.reference? (m.group 1)).isSome

/-- The text with the values of its references in their place. -/
def resolved (settings : CompileSettings) (gap : Text → Text) (t : Text) : Text :=
  Pattern.woven gap (fun m => settings.valueOf (m.group 1)) t 0 (Inline.reference.pattern.occurrences t)

end CompileSettings

namespace Construct

open Draft Inline Pattern

variable {settings : CompileSettings} {context : Context} {d e : Draft} {m : Match} {t : Text} {nuid : Option Text}
  {outs : List (List Part)} {out : List Part}

-- In strict mode a match is a known reference, and it becomes its value.
theorem rewriteMatch_reference (strict : settings.strictReferences = true)
    (found : m ∈ reference.pattern.occurrences (visibleContentOf (some reference.name) d.parts)) :
    (reference.rewriteMatch settings context (reference.handed d m.span)).outcome = .ok out ↔
      (settings.reference? (m.group 1)).isSome ∧ out = [.fixed (settings.valueOf (m.group 1))] := by
  obtain ⟨n,repeats,searched⟩ := standard_rematches (by simp [standard]) found
  have group : n.group 1 = m.group 1 := by rw [Match.group,Match.group,repeats.group]
  rw [rewriteMatch,searched]
  show (Rewriting.reference ⟨reference,settings,context,reference.handed d m.span,n⟩).outcome = _ ↔ _
  rw [Rewriting.reference,CompileSettings.valueOf,← group]
  cases known : settings.reference? (n.group 1) with
  | none =>
    simp only [strict,↓reduceIte,Option.isSome_none,Bool.false_eq_true,false_and,iff_false]
    intro ran
    obtain ⟨_,failed,_⟩ := Logged.outcome_bind_ok.mp ran
    cases failed
  | some value => simp [eq_comm]

theorem stretch_live (scope : Option String) (t : Text) (first last : Nat) :
    contentOf (stretch scope [.live t .nothing] first last) = (t.take last).drop first := by
  have visible : (Part.live t .nothing).visibleTo scope = true := by cases scope <;> rfl
  rw [stretch,windowFrom_visible visible]
  show contentOf ((Part.live ((t.take (last - 0)).drop (first - 0)) .nothing).keep ++ []) = _
  rw [List.append_nil,Nat.sub_zero,Nat.sub_zero]
  generalize (t.take last).drop first = u
  cases u with
  | nil => rfl
  | cons c u => simp [Part.keep,contentOf,Part.content]

theorem spliced_live (scope : Option String) (made : Match → Text) (t : Text) (first : Nat) (found : List Match) :
    contentOf (spliced scope [.live t .nothing] t.length first (found.map Match.span) (found.map fun m => [.fixed (made m)])) =
      woven id made t first found := by
  induction found generalizing first with
  | nil => exact (stretch_live scope t first t.length).trans (by rw [List.take_length]; rfl)
  | cons m rest ih =>
    show contentOf (stretch scope [.live t .nothing] first m.start.position ++ ([.fixed (made m)] ++ _)) = _
    rw [contentOf_append,contentOf_append,stretch_live,ih,woven,show contentOf [.fixed (made m)] = made m from List.append_nil _]
    rfl

-- References resolved: that is all there is to the construct in a text of one part.
theorem apply_references (strict : settings.strictReferences = true) :
    ((∃ e, (reference.apply settings context (.ofLive t .nothing nuid)).outcome = .ok e) ↔ settings.Knows t) ∧
      ∀ e, (reference.apply settings context (.ofLive t .nothing nuid)).outcome = .ok e →
        e.content = settings.resolved id t := by
  have shown : visibleContentOf (some reference.name) (Draft.ofLive t .nothing nuid).parts = t := visible_live _ _
  have ran : ∀ outs, reference.Rewrites settings context nuid (Draft.ofLive t .nothing nuid).parts
      (spansOf reference.name reference.pattern (.ofLive t .nothing nuid)) outs ↔
        settings.Knows t ∧ outs = (reference.pattern.occurrences t).map fun m => [.fixed (settings.valueOf (m.group 1))] := by
    intro outs
    rw [Rewrites,spansOf,shown,List.forall₂_map_left_iff]
    refine forall₂_partial fun m found out => ?_
    exact rewriteMatch_reference (d := .ofLive t .nothing nuid) strict (by rwa [shown])
  constructor
  · constructor
    · rintro ⟨e,run⟩
      obtain ⟨outs,rewrites,_⟩ := apply_rewrites run
      exact ((ran outs).mp rewrites).1
    · intro known
      obtain ⟨parts,run,_⟩ := rewrites_apply (d := .ofLive t .nothing nuid) ((ran _).mpr ⟨known,rfl⟩)
      exact ⟨_,run⟩
  · intro e run
    obtain ⟨outs,rewrites,same⟩ := apply_rewrites run
    obtain ⟨_,rfl⟩ := (ran outs).mp rewrites
    rw [Draft.content,← contentOf_atoms,same,contentOf_atoms,shown,spansOf,shown]
    exact spliced_live _ _ t 0 _

end Construct

namespace Inline

open Pattern

variable {ends : CharSet} {key t : Text} {x : Char}

theorem reference_pattern : reference.pattern = calling (.one '&') := by
  rw [reference,Text.ofString_ofList]
  rfl

-- Characters that are an ampersand or begin with one when they are escaped.
def seeming : CharSet :=
  CharSet.anyOf ('&' :: Html.brackets)

theorem seeming_iff : seeming.contains x = true ↔ x = '&' ∨ x ∈ Html.brackets := by
  simp [seeming,Html.brackets,CharSet.anyOf,CharSet.contains]

theorem apart_bracket (angled : x ∈ Html.brackets) : ¬ CharSet.wordOrHyphen.contains x = true := by
  have all : Html.brackets.all (fun y => !CharSet.wordOrHyphen.contains y) = true := by decide
  simpa using List.all_eq_true.mp all x angled

theorem apart_ampersand : Apart (.one '&') := by
  intro x isEnd
  obtain rfl : x = '&' := by simpa [CharSet.contains] using isEnd
  decide

theorem apart_seeming : Apart seeming := by
  intro x isEnd
  rcases seeming_iff.mp isEnd with rfl | angled
  · decide
  · exact apart_bracket angled

theorem key_escape (all : ∀ c ∈ key, CharSet.wordOrHyphen.contains c = true) : Html.escape key = key :=
  Html.escape_plain fun c member angled => apart_bracket angled (all c member)

-- A key that is called in the escaped text seems to be called in the text.
theorem opens_escape (opens : Opens (.one '&') (Html.escape t)) : Opens seeming t := by
  obtain ⟨key,x,rest,same,isKey,isEnd⟩ := opens
  obtain rfl : x = '&' := by simpa [CharSet.contains] using isEnd
  have split := List.takeWhile_append_dropWhile (p := CharSet.wordOrHyphen.contains) (l := t)
  have run : ∀ c ∈ t.takeWhile CharSet.wordOrHyphen.contains, CharSet.wordOrHyphen.contains c = true :=
    List.all_eq_true.mp List.all_takeWhile
  have whole : Html.escape t =
      t.takeWhile CharSet.wordOrHyphen.contains ++ Html.escape (t.dropWhile CharSet.wordOrHyphen.contains) := by
    conv_lhs => rw [← split]
    rw [Html.escape_append,key_escape run]
  cases behind : t.dropWhile CharSet.wordOrHyphen.contains with
  | nil =>
    rw [behind,same] at whole
    have inside : '&' ∈ t.takeWhile CharSet.wordOrHyphen.contains ++ Html.escape [] := whole ▸ by simp
    exact absurd (run '&' (by simpa [Html.escape] using inside)) (by decide)
  | cons y back =>
    have other : ¬ CharSet.wordOrHyphen.contains y = true := by
      have first := List.head?_dropWhile_not CharSet.wordOrHyphen.contains t
      rw [behind] at first
      simpa using first
    rw [behind,same] at whole
    by_cases angled : y ∈ Html.brackets
    · obtain ⟨word,entity,_⟩ := Html.escapeChar_bracket angled
      rw [Html.escape,List.flatMap_cons,entity] at whole
      obtain ⟨equal,_⟩ := Text.run_once isKey.2 run (apart_ampersand _ rfl) (apart_ampersand _ rfl) whole
      exact ⟨key,y,back,by rw [equal,← behind,split],isKey,seeming_iff.mpr (.inr angled)⟩
    · rw [Html.escape,List.flatMap_cons,Html.escapeChar_other angled] at whole
      obtain ⟨equal,rfl,_⟩ := Text.run_once isKey.2 run (apart_ampersand _ rfl) other whole
      exact ⟨key,'&',back,by rw [equal,← behind,split],isKey,seeming_iff.mpr (.inl rfl)⟩

namespace Segment

variable {segments : List Segment} {segment : Segment} {settings : CompileSettings} {gap : Text → Text} {x : Char}

-- The pieces of the escaped text.
def afterEscape : Segment → List Segment
  | letter c => letters (Html.escapeChar c)
  | call key stop => call key '&' :: letters ((Html.escapeChar stop).drop 1)

-- The pieces of the text in which calls end with ampersands.
def proper : Segment → List Segment
  | letter c => [letter c]
  | call key stop => if stop = '&' then [call key stop] else letters ('&' :: (key ++ [stop]))

-- What may end a call is escaped to an ampersand and a rest without one.
theorem escapeChar_seeming (seems : seeming.contains x = true) : ∃ rest, Html.escapeChar x = '&' :: rest ∧ '&' ∉ rest := by
  rcases seeming_iff.mp seems with rfl | angled
  · exact ⟨[],Html.escapeChar_other (by decide),List.not_mem_nil⟩
  · obtain ⟨word,entity,all⟩ := Html.escapeChar_bracket angled
    refine ⟨_,entity,fun member => ?_⟩
    rcases List.mem_append.mp member with inside | last
    · exact absurd (all _ inside) (by decide)
    · exact absurd last (by decide)

theorem written_proper (segments : List Segment) : written (segments.flatMap proper) = written segments := by
  have each : ∀ segment : Segment, written segment.proper = segment.text := by
    intro segment
    cases segment with
    | letter c => rfl
    | call key stop =>
      rw [proper]
      split
      · exact List.append_nil _
      · exact written_letters _
  induction segments with
  | nil => rfl
  | cons segment rest ih => rw [List.flatMap_cons,written_append,each,ih]; rfl

theorem written_afterEscape (reading : Reading seeming segments) :
    written (segments.flatMap afterEscape) = Html.escape (written segments) := by
  induction segments with
  | nil => rfl
  | cons segment rest ih =>
    rw [List.flatMap_cons,written_append,show written (segment :: rest) = segment.text ++ written rest from List.flatMap_cons,
      Html.escape_append]
    cases segment with
    | letter c =>
      rw [ih reading.2,afterEscape,written_letters,text,Html.escape_single]
    | call key stop =>
      obtain ⟨⟨isKey,seems⟩,reading⟩ := reading
      obtain ⟨tail,entity,_⟩ := escapeChar_seeming seems
      have split : Html.escape (call key stop).text = '&' :: (Html.escape key ++ Html.escapeChar stop) := by
        rw [text,← List.singleton_append,Html.escape_append,Html.escape_append,Html.escape_single,Html.escape_single,
          Html.escapeChar_other (by decide)]
        rfl
      rw [ih reading,split,key_escape isKey.2,afterEscape,entity,written,List.flatMap_cons,← written,written_letters,text]
      simp

theorem reading_proper (reading : Reading seeming segments) : Reading (.one '&') (segments.flatMap proper) := by
  induction segments with
  | nil => trivial
  | cons segment rest ih =>
    cases segment with
    | letter c =>
      obtain ⟨closed,reading⟩ := reading
      refine ⟨fun same opens => closed same ?_,ih reading⟩
      obtain ⟨key,x,back,text,isKey,isEnd⟩ := opens
      have ampersand : x = '&' := by simpa [CharSet.contains] using isEnd
      exact ⟨key,x,back,(written_proper rest).symm.trans text,isKey,seeming_iff.mpr (.inl ampersand)⟩
    | call key stop =>
      obtain ⟨⟨isKey,seems⟩,reading⟩ := reading
      rw [List.flatMap_cons,proper]
      split
      · rename_i ampersand
        exact ⟨⟨isKey,by simp [ampersand,CharSet.contains]⟩,ih reading⟩
      · rename_i other
        exact reading_uncalled apart_ampersand rfl isKey.2 (apart_seeming _ seems) (by simpa [CharSet.contains] using other)
          (ih reading)

theorem reading_afterEscape (reading : Reading seeming segments) : Reading (.one '&') (segments.flatMap afterEscape) := by
  induction segments with
  | nil => trivial
  | cons segment rest ih =>
    cases segment with
    | letter c =>
      obtain ⟨closed,reading⟩ := reading
      rw [List.flatMap_cons,afterEscape]
      by_cases angled : c ∈ Html.brackets
      · obtain ⟨word,entity,all⟩ := Html.escapeChar_bracket angled
        rw [entity]
        exact reading_uncalled apart_ampersand rfl all (by decide) (by decide) (ih reading)
      · rw [Html.escapeChar_other angled]
        refine ⟨fun same opens => closed same (opens_escape ?_),ih reading⟩
        rwa [← written_afterEscape reading]
    | call key stop =>
      obtain ⟨⟨isKey,seems⟩,reading⟩ := reading
      obtain ⟨tail,entity,none⟩ := escapeChar_seeming seems
      rw [List.flatMap_cons,afterEscape,entity]
      exact ⟨⟨isKey,rfl⟩,reading_letters none (ih reading)⟩

theorem knows_reading (reading : Reading (.one '&') segments) :
    settings.Knows (written segments) ↔ ∀ key ∈ segments.filterMap key?, (settings.reference? key).isSome := by
  rw [CompileSettings.Knows,reference_pattern,occurrences_reading apart_ampersand reading,← finds_group [] segments]
  simp only [List.forall_mem_map]

theorem resolved_reading (none : gap [] = []) (split : ∀ t u, gap (t ++ u) = gap t ++ gap u)
    (reading : Reading (.one '&') segments) :
    settings.resolved gap (written segments) = segments.flatMap (piece gap settings.valueOf) := by
  rw [CompileSettings.resolved,reference_pattern,occurrences_reading apart_ampersand reading]
  have whole := woven_finds none split settings.valueOf segments [] 0 (Nat.le_refl _)
  simpa [none] using whole

-- A call that ends with an ampersand of its own.
def Whole : Segment → Prop
  | letter _ => True
  | call _ stop => stop = '&'

-- It stands for the same in the text and in the escaped text.
theorem Whole.pieces {segment : Segment} (whole : segment.Whole) (value : Text → Text) :
    segment.afterEscape.flatMap (piece id value) = segment.proper.flatMap (piece Html.escape value) := by
  cases segment with
  | letter c =>
    rw [afterEscape,letters_pieces rfl (fun _ _ => rfl),proper,List.flatMap_singleton,piece,Html.escape_single]
    rfl
  | call key stop =>
    obtain rfl : stop = '&' := whole
    rw [afterEscape,Html.escapeChar_other (by decide),proper,if_pos rfl]
    rfl

theorem Whole.keys {segment : Segment} (whole : segment.Whole) :
    segment.afterEscape.filterMap key? = segment.proper.filterMap key? := by
  cases segment with
  | letter c => exact letters_keys _
  | call key stop =>
    obtain rfl : stop = '&' := whole
    rw [afterEscape,Html.escapeChar_other (by decide),proper,if_pos rfl]
    rfl

-- Any other loses its ampersand and its key to a value that may be empty.
theorem piece_shorter (segment : Segment) :
    (segment.afterEscape.flatMap (piece id fun _ => [])).length ≤
        (segment.proper.flatMap (piece Html.escape fun _ => [])).length ∧
      ((segment.afterEscape.flatMap (piece id fun _ => [])).length =
        (segment.proper.flatMap (piece Html.escape fun _ => [])).length → segment.Whole) := by
  by_cases whole : segment.Whole
  · rw [whole.pieces]
    exact ⟨Nat.le_refl _,fun _ => whole⟩
  · cases segment with
    | letter c => exact absurd trivial whole
    | call key stop =>
      have made : (call key stop).afterEscape.flatMap (piece id fun _ => []) = (Html.escapeChar stop).drop 1 :=
        letters_pieces rfl (fun _ _ => rfl) _ _
      have kept : (call key stop).proper.flatMap (piece Html.escape fun _ => []) =
          '&' :: (Html.escape key ++ Html.escapeChar stop) := by
        rw [proper,if_neg (show ¬ stop = '&' from whole),letters_pieces rfl Html.escape_append,← List.singleton_append,
          Html.escape_append,Html.escape_append,Html.escape_single,Html.escape_single,Html.escapeChar_other (by decide)]
        rfl
      have less : ((Html.escapeChar stop).drop 1).length < ('&' :: (Html.escape key ++ Html.escapeChar stop)).length := by
        simp
        omega
      rw [made,kept]
      exact ⟨Nat.le_of_lt less,fun same => absurd same (Nat.ne_of_lt less)⟩

theorem pieces_shorter (segments : List Segment) :
    ((segments.flatMap afterEscape).flatMap (piece id fun _ => [])).length ≤
        ((segments.flatMap proper).flatMap (piece Html.escape fun _ => [])).length ∧
      (((segments.flatMap afterEscape).flatMap (piece id fun _ => [])).length =
        ((segments.flatMap proper).flatMap (piece Html.escape fun _ => [])).length → ∀ segment ∈ segments, segment.Whole) := by
  induction segments with
  | nil => exact ⟨Nat.le_refl _,fun _ => List.forall_mem_nil _⟩
  | cons segment rest ih =>
    obtain ⟨here,whole⟩ := segment.piece_shorter
    obtain ⟨later,others⟩ := ih
    simp only [List.flatMap_cons,List.flatMap_append,List.length_append]
    exact ⟨by omega,fun same => List.forall_mem_cons.mpr ⟨whole (by omega),others (by omega)⟩⟩

end Segment

/-- Whatever seems to be a reference ends with an ampersand: no key stands between an ampersand and an angle bracket. -/
def Unspoilt (s : Text) : Prop :=
  ∀ m ∈ (calling seeming).occurrences s, m.text.getLast? = some '&'

theorem unspoilt_reading {segments : List Segment} (reading : Segment.Reading seeming segments) :
    Unspoilt (Segment.written segments) ↔ ∀ segment ∈ segments, segment.Whole := by
  have texts : Unspoilt (Segment.written segments) ↔
      ∀ t ∈ (segments.filter (·.key?.isSome)).map Segment.text, t.getLast? = some '&' := by
    rw [Unspoilt,Segment.occurrences_reading apart_seeming reading,← Segment.finds_text [] segments,List.forall_mem_map]
  rw [texts,List.forall_mem_map]
  constructor
  · intro unspoilt segment member
    cases segment with
    | letter c => trivial
    | call key stop =>
      have last := unspoilt _ (List.mem_filter.mpr ⟨member,rfl⟩)
      rw [Segment.call_last] at last
      exact Option.some.inj last
  · intro whole segment member
    obtain ⟨inside,isCall⟩ := List.mem_filter.mp member
    have ends := whole segment inside
    cases segment with
    | letter c => cases isCall
    | call key stop => exact (Segment.call_last key stop).trans (congrArg some ends)

end Inline

namespace Compiler

open Inline Inline.Segment

/-- References are all that the compiler knows, and it checks them. -/
structure ChecksReferences (compiler : Compiler) : Prop where
  constructs : compiler.constructs = (Catalogue.standard.retain ["reference"]).inline
  strict : compiler.settings.strictReferences = true
  included : compiler.settings.excluded.contains "reference" = false

/-- The text is compiled if the keys of all references in it are known, to the text with their values in their place and
everything else escaped. -/
structure Resolves (compiler : Compiler) (s : Text) : Prop where
  known : (∃ d, (compiler.inlineText s).outcome = .ok d) ↔ compiler.settings.Knows s
  content : ∀ d, (compiler.inlineText s).outcome = .ok d → d.content = compiler.settings.resolved Html.escape s

variable {compiler : Compiler} {s : Text} {segments : List Segment}

-- What is resolved is the escaped text.
theorem inlineText_references (checks : compiler.ChecksReferences) (s : Text) :
    ((∃ d, (compiler.inlineText s).outcome = .ok d) ↔ compiler.settings.Knows (Html.escape s)) ∧
      ∀ d, (compiler.inlineText s).outcome = .ok d → d.content = compiler.settings.resolved id (Html.escape s) := by
  have alone : compiler.inlineText s =
      reference.apply compiler.settings compiler.context (.ofLive (Html.escape s) .nothing none) := by
    rw [inlineText,inline,show compiler.constructs = [reference] from checks.constructs]
    exact Construct.compile_alone checks.included _ _
  rw [alone]
  exact Construct.apply_references checks.strict

-- In the pieces of a text.
theorem inlineText_reading (checks : compiler.ChecksReferences) (reading : Reading seeming segments) :
    ((∃ d, (compiler.inlineText (written segments)).outcome = .ok d) ↔
        ∀ key ∈ (segments.flatMap afterEscape).filterMap key?, (compiler.settings.reference? key).isSome) ∧
      ∀ d, (compiler.inlineText (written segments)).outcome = .ok d →
        d.content = (segments.flatMap afterEscape).flatMap (piece id compiler.settings.valueOf) := by
  have run := inlineText_references checks (written segments)
  have pieces := reading_afterEscape reading
  rwa [← written_afterEscape reading,knows_reading pieces,resolved_reading rfl (fun _ _ => rfl) pieces] at run

theorem resolves_reading (reading : Reading seeming segments) : compiler.Resolves (written segments) ↔
    ((∃ d, (compiler.inlineText (written segments)).outcome = .ok d) ↔
        ∀ key ∈ (segments.flatMap proper).filterMap key?, (compiler.settings.reference? key).isSome) ∧
      ∀ d, (compiler.inlineText (written segments)).outcome = .ok d →
        d.content = (segments.flatMap proper).flatMap (piece Html.escape compiler.settings.valueOf) := by
  have pieces := reading_proper reading
  rw [← knows_reading pieces,← resolved_reading rfl Html.escape_append pieces,written_proper]
  exact ⟨fun resolves => ⟨resolves.known,resolves.content⟩,fun both => ⟨both.1,both.2⟩⟩

def checking (references : List (Text × Text)) : Compiler :=
  ⟨(Catalogue.standard.retain ["reference"]).inline,{ strictReferences := true, references },⟨none,none⟩,⟨⟨[],[]⟩,[]⟩⟩

theorem checking_checks (references : List (Text × Text)) : (checking references).ChecksReferences :=
  ⟨rfl,rfl,rfl⟩

-- Keys that stand for nothing.
def emptying (keys : List Text) : Compiler :=
  checking (keys.map fun key => (key,[]))

theorem emptying_reference (keys : List Text) (key : Text) :
    (emptying keys).settings.reference? key = if key ∈ keys then some [] else none := by
  show (keys.map fun key => (key,[])).lookup key = _
  induction keys with
  | nil => rfl
  | cons other keys ih =>
    rw [List.map_cons,List.lookup_cons]
    by_cases same : key = other
    · simp [same]
    · rw [beq_false_of_ne same]
      simpa [same] using ih

theorem emptying_value (keys : List Text) : (emptying keys).settings.valueOf = fun _ => [] := by
  funext key
  rw [CompileSettings.valueOf,emptying_reference]
  split <;> rfl

-- Escaping makes no difference to the references of a text, whatever they are, if and only if no key in it is spoilt.
theorem escaped_references (s : Text) :
    (∀ compiler : Compiler, compiler.ChecksReferences → compiler.Resolves s) ↔ Unspoilt s := by
  obtain ⟨segments,rfl,reading⟩ := reading_exists seeming s
  rw [unspoilt_reading reading]
  constructor
  · intro resolves
    have checks : (emptying ((segments.flatMap afterEscape).filterMap key?)).ChecksReferences := checking_checks _
    have run := inlineText_reading checks reading
    obtain ⟨d,ran⟩ := run.1.mpr fun key member => by rw [emptying_reference,if_pos member]; rfl
    have law := (resolves_reading reading).mp (resolves _ checks)
    have content := (run.2 d ran).symm.trans (law.2 d ran)
    rw [emptying_value] at content
    exact (pieces_shorter segments).2 (congrArg List.length content)
  · intro whole compiler checks
    have keys : (segments.flatMap afterEscape).filterMap key? = (segments.flatMap proper).filterMap key? := by
      rw [List.filterMap_flatMap,List.filterMap_flatMap]
      exact List.flatMap_congr fun segment member => (whole segment member).keys
    have pieces : (segments.flatMap afterEscape).flatMap (piece id compiler.settings.valueOf) =
        (segments.flatMap proper).flatMap (piece Html.escape compiler.settings.valueOf) := by
      rw [List.flatMap_assoc,List.flatMap_assoc]
      exact List.flatMap_congr fun segment member => (whole segment member).pieces _
    rw [resolves_reading reading,← keys,← pieces]
    exact inlineText_reading checks reading

-- In `&a<` there is no reference, and its key is looked for.
theorem bracket_calls : ¬ ∀ (compiler : Compiler) (s : Text), compiler.ChecksReferences → compiler.Resolves s := by
  intro all
  have reading : Reading seeming [call ['a'] '<'] := ⟨⟨.of_all (by decide) (by decide),by decide⟩,trivial⟩
  have resolves := (resolves_reading reading).mp (all (checking []) ['&','a','<'] (checking_checks []))
  obtain ⟨d,ran⟩ := resolves.1.mpr (by decide)
  have known := (inlineText_reading (checking_checks []) reading).1.mp ⟨d,ran⟩ ['a'] (by decide)
  exact absurd known (by decide)

end Compiler
end LightMarkup
