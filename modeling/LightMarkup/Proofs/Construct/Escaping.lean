import LightMarkup.Proofs.Construct.Beginning
import LightMarkup.Proofs.Construct.Separating
import LightMarkup.Proofs.Draft.Sites
import LightMarkup.Proofs.Pattern.Taking

/-!
Escaped text. A backslash before every character that `escape` takes leaves no mark that a later construct could begin
with, so such a text is compiled to the text itself. Code and formulas are tried before the backslashes are: a text
with two dollar signs becomes a formula, escaped or not.
-/

namespace LightMarkup

namespace Inline

open Pattern

-- The characters that a backslash makes literal.
def escapable : CharSet :=
  CharSet.anyOf "*+\\~%^$@=[]!<>\x7b\x7d()#-_|?&"

theorem escape_pattern : escape.pattern = literal ['\\'] ++ captured 1 (.char escapable) := by
  rw [escape,Text.ofString_eq]
  rfl

theorem escape_group : escape.pattern.hasGroup 1 = true := by
  rw [escape_pattern]
  rfl

def escaped (s : Text) : Text :=
  s.flatMap fun x => if escapable.contains x then ['\\',x] else [x]

-- Characters with which the constructs behind `escape` begin.
def starters : List Char :=
  ['/','%','@','[','=','*','_','~','+','^',':','&']

def behindEscape : List Construct :=
  standard.drop 3

theorem standard_eq : standard = codeSpan :: mathSpan :: escape :: behindEscape := rfl

theorem behindEscape_starts : ∀ c ∈ behindEscape, ∃ x ∈ starters, c.pattern.begins x = true := by
  have all : behindEscape.all (fun c => starters.any c.pattern.begins) = true := by decide +kernel
  intro c member
  obtain ⟨x,isStarter,begun⟩ := List.any_eq_true.mp (List.all_eq_true.mp all c member)
  exact ⟨x,isStarter,begun⟩

-- Characters for which no backslash does anything.
def unescapable : List Char :=
  ['\x60',':','/']

theorem starters_escapable : ∀ x ∈ starters, escapable.contains x = true ∨ x ∈ unescapable := by
  have all : starters.all (fun x => escapable.contains x || unescapable.contains x) = true := by
    rw [escapable,Text.ofString_ofList]
    rfl
  simpa using all

variable {s t : Text} {x : Char}

@[simp] theorem escaped_append (s t : Text) : escaped (s ++ t) = escaped s ++ escaped t :=
  List.flatMap_append

theorem escaped_cons (x : Char) (s : Text) :
    escaped (x :: s) = (if escapable.contains x then ['\\',x] else [x]) ++ escaped s :=
  List.flatMap_cons

theorem mem_escaped : x ∈ escaped s → x ∈ s ∨ x = '\\' := by
  intro member
  obtain ⟨y,inside,here⟩ := List.mem_flatMap.mp member
  split at here
  · rcases List.mem_cons.mp here with rfl | here
    · exact Or.inr rfl
    · exact Or.inl (List.mem_singleton.mp here ▸ inside)
  · exact Or.inl (List.mem_singleton.mp here ▸ inside)

theorem count_escaped (other : x ≠ '\\') (s : Text) : (escaped s).count x = s.count x := by
  induction s with
  | nil => rfl
  | cons y s ih =>
    rw [escaped_cons,List.count_append,ih,List.count_cons,Nat.add_comm]
    congr 1
    split
    · rw [List.count_cons,List.count_singleton]
      simp [Ne.symm other]
    · exact List.count_singleton

end Inline

namespace Draft

open Inline Pattern

variable {scope : Option String} {s : Text} {x : Char}

-- An escaped text as the construct leaves it: what was escaped is shut off from all constructs.
def literalAtoms (s : Text) : List Part :=
  s.map fun x => .live [x] (if escapable.contains x then .everything else .nothing)

theorem contentOf_literalAtoms (s : Text) : contentOf (literalAtoms s) = s := by
  simp [contentOf,literalAtoms,List.flatMap_map,Part.content]

theorem literalAtoms_visible (construct : String) (s : Text) :
    visibleContentOf (some construct) (literalAtoms s) = s.filter fun x => !escapable.contains x := by
  induction s with
  | nil => rfl
  | cons x s ih =>
    rw [literalAtoms,List.map_cons,visibleContentOf_cons,← literalAtoms,ih,List.filter_cons]
    cases escapable.contains x <;> rfl

theorem literalAtoms_quiet (plain : ∀ y ∈ s, y ∉ unescapable) (starts : x ∈ starters) (construct : String) :
    x ∉ visibleContentOf (some construct) (literalAtoms s) := by
  rw [literalAtoms_visible,List.mem_filter]
  rintro ⟨member,literal⟩
  rcases starters_escapable x starts with escapes | other
  · simp [escapes] at literal
  · exact plain x member other

-- The escaped text as the construct takes it.
def escapeSites (s : Text) : List Site :=
  s.map fun x => if escapable.contains x then .found (liveAtoms ['\\',x]) [.live [x] .everything] else .kept (liveAtoms [x])

theorem escapeSites_parts (s : Text) : (escapeSites s).flatMap Site.parts = liveAtoms (escaped s) := by
  induction s with
  | nil => rfl
  | cons x s ih =>
    rw [escapeSites,List.map_cons,List.flatMap_cons,← escapeSites,ih,escaped_cons,liveAtoms_append]
    split <;> rfl

theorem escapeSites_made (s : Text) : (escapeSites s).flatMap Site.made = literalAtoms s := by
  induction s with
  | nil => rfl
  | cons x s ih =>
    rw [escapeSites,List.map_cons,List.flatMap_cons,← escapeSites,ih,literalAtoms,literalAtoms,List.map_cons]
    split <;> rfl

theorem escape_takes {c : Cursor} {rest : Text} (begins : c.after = '\\' :: x :: rest) (escapes : escapable.contains x = true) :
    escape.pattern.ways c = [(c.past 2,[⟨1,c.past 1,c.past 2⟩])] := by
  have front : c.after = ['\\'] ++ x :: rest := begins
  have mark : (literal ['\\']).ways c = [(c.past 1,[])] := ways_literal_at front
  have next : (c.past 1).after = x :: rest := by simp [begins]
  have one : (Pattern.char escapable).ways (c.past 1) = [((c.past 1).past 1,[])] := by
    rw [ways_char_cons next,escapes]
    rfl
  rw [escape_pattern,append_eq,ways,mark,thenWays_plain,captured,ways,one]
  simp [Cursor.past_past]

theorem escapeSites_taken (scope : Option String) (s t : Text) : Site.Taken scope escape.pattern (escapeSites s) t := by
  induction s with
  | nil => trivial
  | cons x s ih =>
    rw [escapeSites,List.map_cons,← escapeSites]
    split
    · rename_i escapes
      refine ⟨⟨by simp,fun c begins => ⟨[⟨1,c.past 1,c.past 2⟩],?_⟩⟩,ih⟩
      rw [visibleContentOf_liveAtoms] at begins ⊢
      rw [escape_takes begins escapes]
      rfl
    · rename_i literal
      refine ⟨fun n inside c begins => begins_ways (x := '\\') (by rw [escape_pattern]; rfl) ?_,ih⟩
      rw [visibleContentOf_liveAtoms] at inside begins
      obtain rfl : n = 0 := by simpa using inside
      rw [begins]
      rintro same
      obtain rfl : x = '\\' := by simpa using same
      exact literal (by rw [escapable,Text.ofString_ofList]; rfl)

end Draft

-- A part with its live text shut off from all constructs.
def Part.sealed : Part → Part
  | .fixed content => .fixed content
  | .live content _ => .live content .everything

namespace Construct

open Draft Inline

variable {settings : CompileSettings} {context : Context} {c : Construct} {d e : Draft} {front back rest : List Part}
  {s : Text} {x : Char}

-- Behind the backslash stands one visible character. Hidden parts between the two stay.
theorem escape_rewrites (whole : atoms d.parts = .live ['\\'] .nothing :: rest)
    (visible : visibleContentOf d.scope rest = [x]) (escapes : escapable.contains x = true) :
    ∃ out, (escape.rewriteMatch settings context d).outcome = .ok out ∧ atoms out = rest.map Part.sealed := by
  have shown : d.visibleContent = ['\\',x] := by
    rw [visibleContent,← visibleContentOf_atoms,whole,← List.singleton_append,visibleContentOf_append,visible]
    exact congrArg (· ++ [x]) (visibleContentOf_liveAtoms d.scope ['\\'])
  have start : (Cursor.start d.visibleContent).after = '\\' :: x :: [] := shown
  obtain ⟨m,matched,captured⟩ : ∃ m, escape.pattern.matchAt? (.start d.visibleContent) = some m ∧
      m.groupSpan? 1 = some (1,2) := by
    refine ⟨_,by rw [Pattern.matchAt_head,escape_takes start escapes]; rfl,?_⟩
    rw [shown]
    rfl
  have sliced : d.slice 1 2 .both = .ok _ := slice_both (by omega) (by simp [shown])
  have inside : atoms (windowFrom d.scope .both 1 2 0 d.parts) = rest := by
    have split : atoms d.parts = liveAtoms ['\\'] ++ (rest ++ []) := by simp [whole,liveAtoms]
    refine stretch_atoms split (by simp) (by simp [visible]) (liveAtoms_shuts _ _) fun part none => ?_
    cases none
  have sealed : Rewriting.captured ⟨escape,settings,context,d,m⟩ false = Part.sealed := by
    funext part
    cases part with
    | fixed content => rfl
    | live content excluded => cases excluded <;> rfl
  have copy : Rewriting.build ⟨escape,settings,context,d,m⟩ (capture 1) =
      .ok ((windowFrom d.scope .both 1 2 0 d.parts).map Part.sealed) :=
    sealed ▸ Rewriting.build_capture (r := ⟨escape,settings,context,d,m⟩) escape_group captured sliced
  refine ⟨(windowFrom d.scope .both 1 2 0 d.parts).map Part.sealed ++ [],?_,?_⟩
  · rw [rewriteMatch,Pattern.search_start matched]
    simp only [escape] at copy ⊢
    simp [Rewriting.parts,Rewriting.buildAll,copy,bind,Except.bind,pure,Except.pure]
  · rw [List.append_nil,← sealed,Rewriting.captured_atoms,inside]

theorem apply_escape (settings : CompileSettings) (context : Context) (whole : atoms d.parts = liveAtoms (escaped s)) :
    ∃ e, (escape.apply settings context d).outcome = .ok e ∧ atoms e.parts = literalAtoms s := by
  rw [← escapeSites_made]
  refine applyAt_sites (whole.trans (escapeSites_parts s).symm) (escapeSites_taken _ s []) fun site member => ?_
  obtain ⟨x,_,rfl⟩ := List.mem_map.mp member
  split
  · rename_i escapes
    refine ⟨by simp [liveAtoms],liveAtoms_opens _ _,liveAtoms_shuts _ _,fun inner same => ?_⟩
    obtain ⟨out,ran,sealed⟩ := escape_rewrites (d := ⟨inner,d.nuid,some escape.name⟩) (x := x) same
      (visibleContentOf_liveAtoms _ [x]) escapes
    exact ⟨out,ran,sealed⟩
  · trivial

theorem escape_way {m : Match} (isWay : m.IsWay escape.pattern) :
    ∃ x, m.start.Reads ['\\',x] m.stop ∧ escapable.contains x = true := by
  rw [Match.IsWay,escape_pattern] at isWay
  obtain ⟨mid,mark,next,captured,same⟩ := Pattern.mem_seq.mp isWay
  obtain ⟨inner,isInner,rfl⟩ := Pattern.mem_group.mp captured
  obtain ⟨x,stop,read,escapes,rfl⟩ := Pattern.mem_char.mp isInner
  obtain rfl : m.stop = stop := congrArg Prod.fst same
  exact ⟨x,(Pattern.literal_reads mark).1.append (Cursor.next_reads read),escapes⟩

-- A backslash before output. If it takes a character from behind the output, the output comes before that one.
theorem apply_dangling {opening : Text} (whole : atoms d.parts = .live ['\\'] .nothing :: .fixed opening :: back)
    (run : (escape.apply settings context d).outcome = .ok e) :
    ∃ part rest, atoms e.parts = part :: rest ∧ (part = .live ['\\'] .nothing ∨ part = .fixed opening) := by
  rcases apply_first run with ⟨_,parts⟩ | ⟨m,out,rest,first,ran,parts⟩
  · exact ⟨_,_,parts.trans whole,Or.inl rfl⟩
  rcases Nat.eq_zero_or_pos m.start.position with start | behind
  · have found := List.mem_of_head? first
    obtain ⟨x,read,escapes⟩ := escape_way (Pattern.occurrences_way found)
    have stop : m.stop.position = 2 := by simp [read.position,start]
    have visible : (.live ['\\'] .nothing : Part).visibleTo (some escape.name) = true := rfl
    have handed : atoms (escape.handed d m.span).parts = .live ['\\'] .nothing :: .fixed opening ::
        windowFrom (some escape.name) .neither 0 2 1 back := by
      show atoms (matchedAt _ _ _) = _
      rw [matchedAt,Match.span,start,stop,atoms_window,whole,windowFrom_visible visible,windowFrom_hidden rfl]
      rfl
    have shown : (escape.handed d m.span).visibleContent = ['\\',x] := (handed_visible found).trans read.textTo
    rw [visibleContent,← visibleContentOf_atoms,handed,visibleContentOf_cons] at shown
    obtain ⟨made,rewritten,sealed⟩ : ∃ made, (escape.rewriteMatch settings context (escape.handed d m.span)).outcome = .ok made ∧
        atoms made = _ := escape_rewrites handed (List.cons.inj shown).2 escapes
    obtain rfl : made = out := Except.ok.inj (rewritten.symm.trans ran)
    have none : atoms (stretch (some escape.name) d.parts 0 0) = [] := by
      have split : atoms d.parts = [] ++ ([] ++ (.live ['\\'] .nothing :: .fixed opening :: back)) := whole
      have shuts : Shuts (some escape.name) [] := by
        intro part member
        cases member
      refine stretch_atoms split rfl rfl shuts fun part head => ?_
      cases head
      rfl
    rw [start,none,sealed] at parts
    exact ⟨_,_,parts,Or.inr rfl⟩
  · have split : atoms d.parts = [.live ['\\'] .nothing] ++ (.fixed opening :: back) := whole
    have reach : (visibleContentOf (some escape.name) [.live ['\\'] .nothing]).length ≤ m.start.position := behind
    obtain ⟨more,kept⟩ := stretch_front split reach
    rw [kept] at parts
    exact ⟨_,_,parts,Or.inl rfl⟩

-- No match goes over the end of an escaped text.
theorem escape_separates (s : Text) (parts : List Part) : escape.separates [liveAtoms (escaped s),parts] = true := by
  have looks : escape.pattern.looksOnly [] = true := by
    rw [escape_pattern]
    rfl
  have text : visibleContentOf (some escape.name) [liveAtoms (escaped s),parts].flatten =
      (escapeSites s).flatMap (Site.visible (some escape.name)) ++ visibleContentOf (some escape.name) parts := by
    rw [← Site.visible_parts,escapeSites_parts]
    simp
  have length : ((escapeSites s).flatMap (Site.visible (some escape.name))).length = (escaped s).length := by
    rw [← Site.visible_parts,escapeSites_parts,visibleContentOf_liveAtoms]
  unfold separates
  simp only [looks,↓reduceIte,List.all_eq_true,Bool.not_eq_true']
  intro span member seam isSeam
  have seams : seam = (escaped s).length ∨
      seam = (escaped s).length + (visibleContentOf (some escape.name) parts).length := by
    simpa [shows,LightMarkup.seams] using isSeam
  have ordered := (spansOf_inOrder escape.name escape.pattern ⟨[liveAtoms (escaped s),parts].flatten,none,none⟩).within
    span member
  simp only [text,List.length_append,length] at ordered
  rw [spansOf,text,Pattern.occurrences,Pattern.scan,Site.scan_taken _ (escapeSites_taken _ s _),List.mem_append] at member
  simp only [crosses,decide_eq_false_iff_not]
  rcases member with front | behind
  · have within := Site.spans_within _ _ _ span front
    rw [escapeSites_parts,visibleContentOf_liveAtoms] at within
    simp only [List.length_nil] at within
    omega
  · have follow := (Pattern.scanFrom_follow (P := fun _ => True) (Pattern.occurrences_find escape.pattern)
      (fun _ _ _ _ => trivial) (visibleContentOf (some escape.name) parts)
      ((escapeSites s).flatMap (Site.visible (some escape.name))).reverse 0 (Nat.zero_le _)).inOrder.within span
    simp only [List.length_reverse,length,List.drop_zero,List.map_id,Nat.add_zero,id_eq] at follow
    have after := follow (by simpa using behind)
    omega

-- An escaped text, and behind it a backslash before output.
theorem apply_escape_over {opening : Text}
    (whole : atoms d.parts = liveAtoms (escaped s) ++ .live ['\\'] .nothing :: .fixed opening :: back)
    (run : (escape.apply settings context d).outcome = .ok e) :
    ∃ part rest, atoms e.parts = literalAtoms s ++ part :: rest ∧
      (part = .live ['\\'] .nothing ∨ part = .fixed opening) := by
  have member : escape ∈ standard := by simp [standard_eq]
  have cut : atoms (.live ['\\'] .nothing :: .fixed opening :: back) = .live ['\\'] .nothing :: .fixed opening :: back := by
    have again := atoms_atoms d.parts
    rw [whole,atoms_append,atoms_liveAtoms] at again
    exact List.append_cancel_left again
  have same : atoms d.parts =
      atoms [liveAtoms (escaped s),.live ['\\'] .nothing :: .fixed opening :: back].flatten := by
    rw [List.flatten_cons,List.flatten_singleton,atoms_append,atoms_liveAtoms,cut,whole]
  obtain ⟨made,each,parts⟩ := apply_separate member (escape_separates s _) same run
  cases each with
  | @cons _ left _ others first later =>
    cases later with
    | @cons _ right _ none second end_ =>
      cases end_
      obtain ⟨alone,ran,literal⟩ := apply_escape settings context (d := ⟨liveAtoms (escaped s),none,none⟩) (s := s)
        (atoms_liveAtoms _)
      obtain rfl : alone = ⟨left,none,none⟩ := Except.ok.inj (ran.symm.trans first)
      obtain ⟨part,rest,dangling,kind⟩ := apply_dangling cut second
      refine ⟨part,rest,?_,kind⟩
      rw [parts,List.flatten_cons,List.flatten_singleton,atoms_append,literal,dangling]

-- A formula needs two dollar signs.
theorem apply_math_once (once : (visibleContentOf (some mathSpan.name) d.parts).count '$' ≤ 1) :
    mathSpan.apply settings context d = pure d := by
  have none : spansOf mathSpan.name mathSpan.pattern d = [] := by
    rw [spansOf,List.map_eq_nil_iff,List.eq_nil_iff_forall_not_mem]
    intro m found
    obtain ⟨mid,front,last,closed,same⟩ := Pattern.mem_seq.mp (Pattern.occurrences_way found)
    obtain ⟨first,opened,body,isBody,rfl⟩ := Pattern.mem_seq.mp front
    obtain ⟨inner,read⟩ := Pattern.ways_reads isBody
    have whole := ((Pattern.literal_reads opened).1.append read).append (Pattern.literal_reads closed).1
    have text := Pattern.occurrences_text found
    rw [Cursor.text,whole.1] at text
    rw [← text,show ("$" : Text) = ['$'] by rw [Text.ofString_eq]; rfl] at once
    simp only [List.count_append,List.count_singleton_self] at once
    omega
  rw [apply,applyAt,none]
  rfl

theorem mathSpan_pattern : mathSpan.pattern =
    Pattern.literal ['$'] ++ Pattern.captured 1 (Pattern.plus (.char (CharSet.noneOf ['$']))) ++ Pattern.literal ['$'] := by
  rw [mathSpan,Text.ofString_eq]
  rfl

-- The first dollar sign begins a formula, up to the second.
theorem math_first {before inner : Text} (behind : Text) (first : '$' ∉ before) (some : inner ≠ []) (next : '$' ∉ inner) :
    ∃ m, (mathSpan.pattern.occurrences (before ++ '$' :: (inner ++ '$' :: behind))).head? = .some m ∧
      m.start.position = before.length := by
  have dead : ∀ n < before.length, mathSpan.pattern.matchSomeAt?
      ((⟨[],before ++ '$' :: (inner ++ '$' :: behind)⟩ : Cursor).past n) = none := by
    intro n inside
    have ways := Pattern.begins_ways (p := mathSpan.pattern) (x := '$') (by rw [mathSpan_pattern]; rfl)
      (c := (⟨[],before ++ '$' :: (inner ++ '$' :: behind)⟩ : Cursor).past n) <| by
        rw [Cursor.past_after,List.drop_append_of_le_length (Nat.le_of_lt inside),List.drop_eq_getElem_cons inside]
        rintro same
        exact first (Option.some.inj same ▸ List.getElem_mem inside)
    exact Pattern.matchSomeAt_none.mpr (ways ▸ List.forall_mem_nil _)
  generalize place : (⟨before.reverse,'$' :: (inner ++ '$' :: behind)⟩ : Cursor) = c
  have begins : c.after = ['$'] ++ (inner ++ '$' :: behind) := by rw [← place]; rfl
  have opened : (c.past 1).after = inner ++ '$' :: behind := by rw [Cursor.past_after,begins]; rfl
  have closed : (c.past (['$'] ++ inner).length).after = ['$'] ++ behind := by
    rw [List.length_append,List.length_singleton,← Cursor.past_past,Cursor.past_after,opened,List.drop_left]
    rfl
  obtain ⟨x,more,rfl⟩ := List.exists_cons_of_ne_nil some
  have all : ∀ y ∈ x :: more, (CharSet.noneOf ['$']).contains y = true := by
    intro y member
    have other : y ≠ '$' := fun same => next (same ▸ member)
    simp [CharSet.noneOf,CharSet.anyOf,CharSet.contains,other]
  have body : (Pattern.plus (.char (CharSet.noneOf ['$']))).Takes (c.past 1) (x :: more) :=
    Pattern.takes_plus (Pattern.takes_char opened (all x (List.mem_cons_self ..)))
      (Pattern.takes_run (by rw [Cursor.past_after,opened]; rfl) fun y member => all y (List.mem_cons_of_mem _ member))
  obtain ⟨g,found⟩ : mathSpan.pattern.Takes c (['$'] ++ (x :: more) ++ ['$']) := by
    rw [mathSpan_pattern]
    exact ((Pattern.takes_literal begins).seq (.group body)).seq (Pattern.takes_literal closed)
  rw [Pattern.occurrences,Pattern.scan,Pattern.scan_pass dead,List.append_nil,Pattern.scanFrom,place]
  cases here : mathSpan.pattern.matchSomeAt? c with
  | none =>
    have far := Pattern.matchSomeAt_none.mp here _ found
    have length : c.after.length = (['$'] ++ (x :: more) ++ ['$']).length + behind.length := by simp [begins]; omega
    rw [Cursor.past_after,List.length_drop,length,List.length_append,List.length_append] at far
    have one : (['$'] : Text).length = 1 := rfl
    omega
  | some m =>
    refine ⟨m,rfl,?_⟩
    rw [(Pattern.matchSomeAt_way here).1,← place]
    exact List.length_reverse

theorem math_opens {out : List Part} (ran : (mathSpan.rewriteMatch settings context d).outcome = .ok out) :
    ∃ rest, atoms out = .fixed "<span class=\"inline-math\">$" :: rest := by
  rw [rewriteMatch] at ran
  cases found : mathSpan.pattern.search? d.visibleContent with
  | none =>
    rw [found] at ran
    cases ran
  | some m =>
    rw [found] at ran
    have built : Rewriting.buildAll ⟨mathSpan,settings,context,d,m⟩ [.text "<span class=\"inline-math\">$",captureEscaped 1,
        .text "$</span>"] = .ok out := ran
    rw [Rewriting.buildAll,Rewriting.build_text] at built
    obtain ⟨_,first,later⟩ := Failure.bind_ok.mp built
    obtain ⟨rest,_,same⟩ := Failure.bind_ok.mp later
    cases first
    cases same
    exact ⟨_,rfl⟩

theorem apply_math_twice {before inner behind : Text}
    (whole : atoms d.parts = liveAtoms (before ++ '$' :: (inner ++ '$' :: behind))) (first : '$' ∉ before)
    (some : inner ≠ []) (next : '$' ∉ inner) (run : (mathSpan.apply settings context d).outcome = .ok e) :
    ∃ rest, atoms e.parts = liveAtoms before ++ .fixed "<span class=\"inline-math\">$" :: rest := by
  have text : visibleContentOf (.some mathSpan.name) d.parts = before ++ '$' :: (inner ++ '$' :: behind) := by
    rw [← visibleContentOf_atoms,whole,visibleContentOf_liveAtoms]
  obtain ⟨m,isFirst,position⟩ := math_first behind first some next
  rcases apply_first run with ⟨none,_⟩ | ⟨n,out,rest,here,ran,parts⟩
  · rw [← text,none] at isFirst
    cases isFirst
  · rw [text,isFirst] at here
    cases here
    have kept : atoms (stretch (.some mathSpan.name) d.parts 0 before.length) = liveAtoms before := by
      have split : atoms d.parts = [] ++ (liveAtoms before ++ liveAtoms ('$' :: (inner ++ '$' :: behind))) := by
        rw [whole,liveAtoms_append,List.nil_append]
      exact stretch_atoms split rfl (by simp) (fun part none => by cases none) (liveAtoms_opens _ _)
    rw [position,kept] at parts
    obtain ⟨inside,begun⟩ := math_opens ran
    rw [begun,List.cons_append] at parts
    exact ⟨_,parts⟩

end Construct

namespace Inline

open Draft Construct

variable {s : Text}

theorem atoms_escaped (s : Text) (nuid : Option Text) :
    atoms (Draft.ofLive (escaped s) .nothing nuid).parts = liveAtoms (escaped s) := by
  simp [ofLive,Part.atoms,liveAtoms]

theorem visible_escaped (scope : Option String) (s : Text) (nuid : Option Text) :
    visibleContentOf scope (Draft.ofLive (escaped s) .nothing nuid).parts = escaped s := by
  rw [← visibleContentOf_atoms,atoms_escaped,visibleContentOf_liveAtoms]

-- There is no code in the text: the first steps are those for formulas and for backslashes.
theorem compile_escaped (plain : ∀ x ∈ s, x ∉ unescapable) (context : Context) (nuid : Option Text) :
    (Draft.ofLive (escaped s) .nothing nuid).compile standard {} context =
      mathSpan.apply {} context (.ofLive (escaped s) .nothing nuid) >>= fun d =>
        escape.apply {} context d >>= applyEach {} context behindEscape := by
  have none : ∀ name, ¬ ({} : CompileSettings).excluded.contains name = true := fun _ => Bool.false_ne_true
  have absent : '\x60' ∉ visibleContentOf (some codeSpan.name) (Draft.ofLive (escaped s) .nothing nuid).parts := by
    rw [visible_escaped]
    intro member
    rcases mem_escaped member with inside | other
    · exact plain _ inside (by decide)
    · cases other
  have begins : codeSpan.pattern.begins '\x60' = true := by
    rw [codeSpan]
    repeat rw [Text.ofString_ofList]
    rfl
  rw [Draft.compile,if_neg (by decide),standard_eq,applyEach_applied (none _),apply_unbegun begins absent,pure_bind,
    applyEach_applied (none _)]
  rfl

-- The first formula in a text with two dollar signs stays: what comes out goes on differently behind what precedes it.
theorem compile_twice {before inner behind : Text} {context : Context} {nuid : Option Text} {e : Draft}
    (whole : s = before ++ '$' :: (inner ++ '$' :: behind)) (first : '$' ∉ before) (next : '$' ∉ inner)
    (plain : ∀ x ∈ s, x ∉ unescapable)
    (run : ((Draft.ofLive (escaped s) .nothing nuid).compile standard {} context).outcome = .ok e) :
    ∃ x rest, e.content = before ++ x :: rest ∧ x ≠ '$' := by
  rw [compile_escaped plain] at run
  obtain ⟨d,math,run⟩ := Logged.outcome_bind_ok.mp run
  obtain ⟨d',escapes,run⟩ := Logged.outcome_bind_ok.mp run
  have dollar : ∀ t, escaped ('$' :: t) = '\\' :: '$' :: escaped t := fun t => by
    rw [escaped_cons,if_pos (by rw [escapable,Text.ofString_ofList]; rfl)]
    rfl
  have split : escaped s = (escaped before ++ ['\\']) ++ '$' :: ((escaped inner ++ ['\\']) ++ '$' :: escaped behind) := by
    simp [whole,dollar]
  have absent : ∀ {t : Text}, '$' ∉ t → '$' ∉ escaped t ++ ['\\'] := by
    intro t none member
    rcases List.mem_append.mp member with inside | other
    · rcases mem_escaped inside with inside | other
      · exact none inside
      · cases other
    · cases List.mem_singleton.mp other
  obtain ⟨rest,formula⟩ := apply_math_twice ((atoms_escaped s nuid).trans (congrArg liveAtoms split)) (absent first)
    (by simp) (absent next) math
  rw [liveAtoms_append,List.append_assoc] at formula
  obtain ⟨part,rest,kept,kind⟩ := apply_escape_over formula escapes
  have plainBefore : ∀ x ∈ before, x ∉ unescapable := fun x member => plain x (by simp [whole,member])
  have quiet : ∀ x ∈ starters, ∀ construct : String,
      x ∉ visibleContentOf (some construct) (literalAtoms before ++ [part]) := by
    intro x starts construct member
    rw [visibleContentOf_append] at member
    rcases List.mem_append.mp member with member | member
    · exact literalAtoms_quiet plainBefore starts construct member
    · rcases kind with rfl | rfl
      · obtain rfl : x = '\\' := by simpa [visibleContentOf,Part.visibleTo,Exclusion.contains,Part.content] using member
        exact absurd starts (by decide)
      · cases member
  have front : atoms d'.parts = literalAtoms before ++ [part] ++ rest := kept.trans (by simp)
  obtain ⟨more,last⟩ := applyEach_front behindEscape_starts front quiet run
  have content : e.content = before ++ (part.content ++ contentOf more) := by
    rw [Draft.content,← contentOf_atoms,last,contentOf,List.flatMap_append,List.flatMap_append,← contentOf,
      contentOf_literalAtoms]
    simp [contentOf]
  rcases kind with rfl | rfl
  · exact ⟨_,_,content,by decide⟩
  · have opening : ("<span class=\"inline-math\">$" : Text) = '<' :: "span class=\"inline-math\">$" := by
      repeat rw [Text.ofString_ofList]
    rw [Part.content,opening] at content
    exact ⟨_,_,content,by decide⟩

-- Escaped text comes out as the text that was escaped, unless there are two dollar signs in it.
theorem escaped_literal (plain : ∀ x ∈ s, x ∉ unescapable) (context : Context) (nuid : Option Text) :
    (∃ e, ((Draft.ofLive (escaped s) .nothing nuid).compile standard {} context).outcome = .ok e ∧ e.content = s) ↔
      s.count '$' ≤ 1 := by
  constructor
  · rintro ⟨e,run,content⟩
    by_contra twice
    obtain ⟨before,rest,whole,first⟩ := List.eq_append_cons_of_mem (List.count_pos_iff.mp (show 0 < s.count '$' by omega))
    have more : 0 < rest.count '$' := by
      rw [whole,List.count_append,List.count_eq_zero.mpr first,List.count_cons_self] at twice
      omega
    obtain ⟨inner,behind,later,next⟩ := List.eq_append_cons_of_mem (List.count_pos_iff.mp more)
    subst later
    obtain ⟨x,rest,same,other⟩ := compile_twice whole first next plain run
    rw [content,whole] at same
    exact other (List.cons.inj (List.append_cancel_left same)).1.symm
  · intro once
    have seen : (visibleContentOf (some mathSpan.name) (Draft.ofLive (escaped s) .nothing nuid).parts).count '$' ≤ 1 := by
      rwa [visible_escaped,count_escaped (by decide)]
    obtain ⟨e,ran,literal⟩ := apply_escape {} context (atoms_escaped s nuid)
    refine ⟨e,?_,?_⟩
    · rw [compile_escaped plain,apply_math_once seen,pure_bind]
      refine Logged.outcome_bind_ok.mpr ⟨e,ran,?_⟩
      rw [applyEach_unbegun behindEscape_starts]
      · rfl
      · intro x starts construct
        rw [← visibleContentOf_atoms,literal]
        exact literalAtoms_quiet plain starts construct
    · rw [Draft.content,← contentOf_atoms,literal,contentOf_literalAtoms]

theorem escaped_literal_marks : (∀ x ∈ ['$','*','*','\\','[','a',']'], x ∉ unescapable) ∧
    escaped ['$','*','*','\\','[','a',']'] = "\\$\\*\\*\\\\\\[a\\]" ∧
    ∃ e, ((Draft.ofLive (escaped ['$','*','*','\\','[','a',']']) .nothing none).compile standard {} ⟨none,none⟩).outcome =
      .ok e ∧ e.content = ['$','*','*','\\','[','a',']'] := by
  have plain : ∀ x ∈ ['$','*','*','\\','[','a',']'], x ∉ unescapable := by simp [unescapable]
  have written : escaped ['$','*','*','\\','[','a',']'] = "\\$\\*\\*\\\\\\[a\\]" := by
    rw [escaped,escapable,Text.ofString_ofList,Text.ofString_ofList]
    rfl
  exact ⟨plain,written,(escaped_literal plain ⟨none,none⟩ none).mpr (by decide)⟩

def escapedFormula : Draft :=
  ⟨[.live "\\" .nothing,.fixed "<span class=\"inline-math\">$",.live "a\\" .everything,.fixed "$</span>"],none,none⟩

-- A formula in spite of its backslashes, and they are left standing.
theorem escaped_formula_remains : ¬ ∀ s : Text, (∀ x ∈ s, x ∉ unescapable) → ∀ (context : Context) (nuid : Option Text),
    ∃ e, ((Draft.ofLive (escaped s) .nothing nuid).compile standard {} context).outcome = .ok e ∧ e.content = s := by
  intro all
  have run : ((Draft.ofLive (escaped ['$','a','$']) .nothing none).compile standard {} ⟨none,none⟩).outcome =
      .ok escapedFormula := by decide +kernel
  obtain ⟨e,ran,content⟩ := all ['$','a','$'] (by simp [unescapable]) ⟨none,none⟩ none
  obtain rfl : escapedFormula = e := Except.ok.inj (run.symm.trans ran)
  exact absurd content (by rw [escapedFormula,Text.ofString_ofList]; decide)

end Inline
end LightMarkup
