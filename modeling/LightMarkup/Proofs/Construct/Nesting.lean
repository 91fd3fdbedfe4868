import Mathlib.Data.List.Chain
import LightMarkup.Proofs.Construct.Wrapping
import LightMarkup.Proofs.Draft.Sites

/-!
Wrappers in wrappers. The constructs see no tree: each takes its own marks out of the text that those before it have
left. After the first `n` wrappers the text is that of the tree with `n` kinds of marks replaced by tags (`shown`), and
the next wrapper replaces one kind more.
-/

namespace LightMarkup

-- Plain text, and wrappers around inline text.
inductive Inlines where
  | nil
  | text (t : Text) (rest : Inlines)
  | wrap (w : Wrapper) (inner rest : Inlines)
  deriving DecidableEq, Repr

inductive Token where
  | plain (t : Text)
  | mark (w : Wrapper)
  deriving DecidableEq, Repr

namespace Token

def isMark : Token → Bool
  | plain _ => false
  | mark _ => true

-- A plain text has a character, and all its characters are plain.
def isProper : Token → Bool
  | plain t => !t.isEmpty && t.all Wrapper.isPlain
  | mark _ => true

def Apart (one two : Token) : Prop :=
  ¬ (one.isMark = true ∧ two.isMark = true)

instance : DecidableRel Apart := fun one two =>
  inferInstanceAs (Decidable (¬ (one.isMark = true ∧ two.isMark = true)))

end Token

namespace Inlines

def render : Inlines → Text
  | nil => []
  | text t rest => t ++ rest.render
  | wrap w inner rest => w.mark ++ (inner.render ++ (w.mark ++ rest.render))

def html : Inlines → Text
  | nil => []
  | text t rest => t ++ rest.html
  | wrap w inner rest => w.opening ++ (inner.html ++ (w.closing ++ rest.html))

def tokens : Inlines → List Token
  | nil => []
  | text t rest => .plain t :: rest.tokens
  | wrap w inner rest => .mark w :: (inner.tokens ++ .mark w :: rest.tokens)

-- No wrapper stands in a wrapper of its own kind.
def isNested : Inlines → Bool
  | nil => true
  | text _ rest => rest.isNested
  | wrap w inner rest => !inner.tokens.contains (.mark w) && inner.isNested && rest.isNested

structure WellFormed (tree : Inlines) : Prop where
  proper : ∀ token ∈ tree.tokens, token.isProper = true
  nested : tree.isNested = true
  -- Between two marks stands plain text.
  apart : tree.tokens.IsChain Token.Apart

end Inlines

theorem Wrapper.index_injective {v w : Wrapper} (same : v.index = w.index) : v = w := by
  revert same
  cases v <;> cases w <;> simp [index]

namespace Token

open Wrapper

variable {w : Wrapper} {token : Token} {tokens more : List Token} {n : Nat}

-- What is left of a token when the first `n` wrappers have been taken.
def spelled (n : Nat) : Token → Text
  | plain t => t
  | mark w => if w.index < n then [] else w.mark

def spelling (n : Nat) (tokens : List Token) : Text :=
  tokens.flatMap (spelled n)

@[simp] theorem spelling_nil (n : Nat) : spelling n [] = [] := rfl

@[simp] theorem spelling_cons (n : Nat) (token : Token) (tokens : List Token) :
    spelling n (token :: tokens) = token.spelled n ++ spelling n tokens :=
  List.flatMap_cons

@[simp] theorem spelling_append (n : Nat) (tokens more : List Token) :
    spelling n (tokens ++ more) = spelling n tokens ++ spelling n more :=
  List.flatMap_append

theorem plain_proper {t : Text} : (plain t).isProper = true ↔ t ≠ [] ∧ ∀ x ∈ t, isPlain x = true := by
  simp [isProper]

theorem spelling_written (proper : ∀ token ∈ tokens, token.isProper = true) :
    ∀ x ∈ spelling n tokens, isWritten x = true := by
  intro x member
  obtain ⟨token,isToken,inside⟩ := List.mem_flatMap.mp member
  cases token with
  | plain t => simp [isWritten,(plain_proper.mp (proper _ isToken)).2 x inside]
  | mark v =>
    rw [spelled] at inside
    split at inside
    · cases inside
    · exact v.mark_written x inside

-- Behind a mark comes a plain character, if anything.
theorem head_plain (proper : ∀ token ∈ more, token.isProper = true) (isMark : token.isMark = true)
    (apart : (token :: more).IsChain Apart) : ∀ x ∈ (spelling n more).head?, isPlain x = true := by
  cases more with
  | nil => exact fun x none => by cases none
  | cons next more =>
    have notMark := (List.isChain_cons_cons.mp apart).1
    cases next with
    | mark v => exact absurd ⟨isMark,rfl⟩ notMark
    | plain t =>
      obtain ⟨some,plain⟩ := plain_proper.mp (proper _ (List.mem_cons_self ..))
      obtain ⟨y,t,rfl⟩ := List.exists_cons_of_ne_nil some
      intro x head
      cases head
      exact plain y (List.mem_cons_self ..)

theorem spelled_passes (proper : ∀ next ∈ token :: more, next.isProper = true) (apart : (token :: more).IsChain Apart)
    (other : token ≠ .mark w) : Passes w (token.spelled w.index) (spelling w.index more) := by
  obtain ⟨here,later⟩ := List.forall_mem_cons.mp proper
  cases token with
  | plain t => exact plain_passes (plain_proper.mp here).2 _
  | mark v =>
    intro n inside
    rw [spelled] at inside ⊢
    split at inside
    · cases inside
    · rename_i notDone
      rw [if_neg notDone]
      have different : w.index ≠ v.index := fun same => other (congrArg mark (index_injective same.symm))
      exact later_not_mark (by omega) inside (head_plain later rfl apart)

theorem spelling_passes (proper : ∀ token ∈ tokens ++ more, token.isProper = true)
    (apart : (tokens ++ more).IsChain Apart) (free : .mark w ∉ tokens) :
    Passes w (spelling w.index tokens) (spelling w.index more) := by
  induction tokens with
  | nil => exact fun n inside => by cases inside
  | cons token tokens ih =>
    rw [List.mem_cons,not_or] at free
    rw [List.cons_append] at proper apart
    have here := spelled_passes proper apart (Ne.symm free.1)
    rw [spelling_append] at here
    rw [spelling_cons]
    exact here.append (ih (fun next member => proper next (List.mem_cons_of_mem _ member)) apart.tail free.2)

-- Between two marks of a kind something is left.
theorem spelling_some (proper : ∀ next ∈ tokens, next.isProper = true)
    (apart : (.mark w :: (tokens ++ .mark w :: more)).IsChain Apart) : spelling n tokens ≠ [] := by
  cases tokens with
  | nil => exact absurd ⟨rfl,rfl⟩ (List.isChain_cons_cons.mp apart).1
  | cons next tokens =>
    cases next with
    | mark v => exact absurd ⟨rfl,rfl⟩ (List.isChain_cons_cons.mp apart).1
    | plain t => simp [spelled,(plain_proper.mp (proper _ (List.mem_cons_self ..))).1]

end Token

namespace Wrapper

open Draft

-- A mark, or the tag that stands in its place when the first `n` wrappers have been taken.
def edge (n : Nat) (w : Wrapper) (tag : Text) : List Part :=
  if w.index < n then [.fixed tag] else liveAtoms w.mark

theorem visible_edge (scope : Option String) (n : Nat) (w : Wrapper) (tag : Text) :
    visibleContentOf scope (w.edge n tag) = (Token.mark w).spelled n := by
  rw [edge,Token.spelled]
  split
  · rfl
  · exact visibleContentOf_liveAtoms scope w.mark

theorem edge_undone (w : Wrapper) (tag : Text) : w.edge w.index tag = liveAtoms w.mark := by
  simp [edge]

theorem edge_done (w : Wrapper) (tag : Text) : w.edge (w.index + 1) tag = [.fixed tag] := by
  simp [edge]

theorem edge_other {v w : Wrapper} (other : v ≠ w) (tag : Text) : v.edge (w.index + 1) tag = v.edge w.index tag := by
  have different : v.index ≠ w.index := fun same => other (index_injective same)
  simp [edge,show v.index < w.index + 1 ↔ v.index < w.index by omega]

end Wrapper

namespace Inlines

open Draft

variable {tree : Inlines} {w : Wrapper} {n : Nat} {scope : Option String} {more : List Token}

-- What has become of the tree when the first `n` wrappers have been taken.
def shown (n : Nat) : Inlines → List Part
  | nil => []
  | text t rest => liveAtoms t ++ rest.shown n
  | wrap w inner rest => w.edge n w.opening ++ (inner.shown n ++ (w.edge n w.closing ++ rest.shown n))

theorem shown_first (tree : Inlines) : tree.shown 0 = liveAtoms tree.render := by
  induction tree with
  | nil => rfl
  | text t rest ih => rw [shown,ih,render,liveAtoms_append]
  | wrap w inner rest one two => simp [shown,one,two,render,liveAtoms_append,Wrapper.edge]

theorem contentOf_shown (tree : Inlines) : contentOf (tree.shown 7) = tree.html := by
  have all : ∀ parts rest : List Part, contentOf (parts ++ rest) = contentOf parts ++ contentOf rest := by
    simp [contentOf]
  have live : ∀ t, contentOf (liveAtoms t) = t := by
    intro t
    simp [contentOf,liveAtoms,List.flatMap_map,Part.content]
  have tag : ∀ (w : Wrapper) t, contentOf (w.edge 7 t) = t := by
    intro w t
    have done : w.index < 7 := by cases w <;> decide
    simp [Wrapper.edge,done,contentOf,Part.content]
  induction tree with
  | nil => rfl
  | text t rest ih => rw [shown,all,live,ih,html]
  | wrap w inner rest one two => rw [shown,all,all,all,tag,tag,one,two,html]

theorem visible_shown (scope : Option String) (n : Nat) (tree : Inlines) :
    visibleContentOf scope (tree.shown n) = Token.spelling n tree.tokens := by
  induction tree with
  | nil => rfl
  | text t rest ih => simp [shown,tokens,ih,Token.spelled]
  | wrap w inner rest one two => simp [shown,tokens,one,two,Wrapper.visible_edge]

-- Where a wrapper does not stand there is nothing for it to take.
theorem shown_free (free : .mark w ∉ tree.tokens) : tree.shown (w.index + 1) = tree.shown w.index := by
  induction tree with
  | nil => rfl
  | text t rest ih =>
    simp only [tokens,List.mem_cons,not_or] at free
    rw [shown,shown,ih free.2]
  | wrap v inner rest one two =>
    simp only [tokens,List.mem_cons,List.mem_append,not_or] at free
    have other : v ≠ w := fun same => free.1 (congrArg Token.mark same.symm)
    rw [shown,shown,one free.2.1,two free.2.2.2,Wrapper.edge_other other,Wrapper.edge_other other]

-- The tree as a wrapper takes it.
def sites (w : Wrapper) : Inlines → List Site
  | nil => []
  | text t rest => .kept (liveAtoms t) :: rest.sites w
  | wrap v inner rest =>
    if v = w then
      .found (liveAtoms w.mark ++ (inner.shown w.index ++ liveAtoms w.mark))
        (.fixed w.opening :: (inner.shown w.index ++ [.fixed w.closing])) :: rest.sites w
    else
      .kept (v.edge w.index v.opening) :: (inner.sites w ++ .kept (v.edge w.index v.closing) :: rest.sites w)

theorem sites_parts (w : Wrapper) (tree : Inlines) : (tree.sites w).flatMap Site.parts = tree.shown w.index := by
  induction tree with
  | nil => rfl
  | text t rest ih => rw [sites,List.flatMap_cons,ih,shown,Site.parts]
  | wrap v inner rest one two =>
    rw [sites,shown]
    split
    · rename_i same
      rw [same,List.flatMap_cons,two,Wrapper.edge_undone,Wrapper.edge_undone,Site.parts]
      simp
    · simp [Site.parts,one,two]

theorem sites_made (nested : tree.isNested = true) : (tree.sites w).flatMap Site.made = tree.shown (w.index + 1) := by
  induction tree with
  | nil => rfl
  | text t rest ih => rw [sites,List.flatMap_cons,ih nested,shown,Site.made]
  | wrap v inner rest one two =>
    simp only [isNested,Bool.and_eq_true,Bool.not_eq_true',List.contains_eq_mem,decide_eq_false_iff_not] at nested
    obtain ⟨⟨free,inside⟩,behind⟩ := nested
    rw [sites,shown]
    split
    · rename_i same
      subst same
      rw [List.flatMap_cons,two behind,Wrapper.edge_done,Wrapper.edge_done,shown_free free,Site.made]
      simp
    · rename_i other
      rw [Wrapper.edge_other other,Wrapper.edge_other other,List.flatMap_cons,List.flatMap_append,List.flatMap_cons,
        one inside,two behind]
      rfl

theorem sites_visible (scope : Option String) (w : Wrapper) (tree : Inlines) :
    (tree.sites w).flatMap (Site.visible scope) = Token.spelling w.index tree.tokens := by
  rw [← Site.visible_parts,sites_parts,visible_shown]

-- A wrapper matches at none of the places of a stretch in which no mark of its own begins.
theorem kept_dead {parts : List Part} {t : Text} (passes : w.Passes (visibleContentOf scope parts) t) :
    ∀ n < (visibleContentOf scope parts).length, ∀ c : Cursor,
      c.after = (visibleContentOf scope parts).drop n ++ t → w.construct.pattern.ways c = [] :=
  fun n inside _ begins => Wrapper.ways_none (begins ▸ passes n inside)

theorem sites_taken (nested : tree.isNested = true) (proper : ∀ token ∈ tree.tokens ++ more, token.isProper = true)
    (apart : (tree.tokens ++ more).IsChain Token.Apart) :
    Site.Taken scope w.construct.pattern (tree.sites w) (Token.spelling w.index more) := by
  induction tree generalizing more with
  | nil => trivial
  | text t rest ih =>
    rw [tokens,List.cons_append] at proper apart
    obtain ⟨_,later⟩ := List.forall_mem_cons.mp proper
    have passes := Token.spelled_passes (w := w) proper apart (by simp)
    rw [Token.spelled,Token.spelling_append,← sites_visible scope,← visibleContentOf_liveAtoms scope t] at passes
    exact ⟨kept_dead passes,ih nested later apart.tail⟩
  | wrap v inner rest one two =>
    simp only [isNested,Bool.and_eq_true,Bool.not_eq_true',List.contains_eq_mem,decide_eq_false_iff_not] at nested
    obtain ⟨⟨free,inside⟩,behind⟩ := nested
    simp only [tokens,List.cons_append,List.append_assoc] at proper apart
    have properInner : ∀ token ∈ inner.tokens ++ .mark v :: (rest.tokens ++ more), token.isProper = true :=
      (List.forall_mem_cons.mp proper).2
    have properRest : ∀ token ∈ .mark v :: (rest.tokens ++ more), token.isProper = true :=
      fun token member => properInner token (List.mem_append_right _ member)
    have apartRest : (.mark v :: (rest.tokens ++ more)).IsChain Token.Apart := apart.tail.right_of_append
    have taken := two behind (List.forall_mem_cons.mp properRest).2 apartRest.tail
    rw [sites]
    split
    · rename_i same
      subst same
      have own : visibleContentOf scope (liveAtoms v.mark ++ (inner.shown v.index ++ liveAtoms v.mark)) =
          v.mark ++ (Token.spelling v.index inner.tokens ++ v.mark) := by simp [visible_shown]
      have properOwn : ∀ token ∈ inner.tokens, token.isProper = true :=
        fun token member => properInner token (List.mem_append_left _ member)
      have some := Token.spelling_some (n := v.index) properOwn apart
      have passes := Token.spelling_passes properInner apart.tail free
      rw [Token.spelling_cons,Token.spelled,if_neg (Nat.lt_irrefl _)] at passes
      refine ⟨⟨by simp [own,some],fun c begins => ?_⟩,taken⟩
      rw [own,sites_visible,← Token.spelling_append,List.append_assoc,List.append_assoc] at begins
      have head := Wrapper.wrapper_takes begins some (Token.spelling_written properOwn) passes
      exact ⟨_,by rw [own,head,List.length_append,List.length_append,Nat.add_assoc]⟩
    · rename_i other
      have opening := Token.spelled_passes (w := w) proper apart (by simpa using other)
      have closing := Token.spelled_passes (w := w) properRest apartRest (by simpa using other)
      have insides : Site.Taken scope w.construct.pattern (inner.sites w)
          (Token.spelling w.index (.mark v :: (rest.tokens ++ more))) := one inside properInner apart.tail
      rw [← v.visible_edge scope w.index v.opening] at opening
      rw [← v.visible_edge scope w.index v.closing] at closing
      refine ⟨kept_dead ?_,Site.taken_append.mpr ⟨?_,kept_dead ?_,taken⟩⟩
      · simpa [sites_visible,Site.visible,Site.parts,Wrapper.visible_edge] using opening
      · simpa [sites_visible,Site.visible,Site.parts,Wrapper.visible_edge] using insides
      · simpa [sites_visible] using closing

theorem sites_rewritten {settings : CompileSettings} {context : Context} {nuid : Option Text}
    (nested : tree.isNested = true) (proper : ∀ token ∈ tree.tokens, token.isProper = true)
    (apart : tree.tokens.IsChain Token.Apart) : ∀ site ∈ tree.sites w,
      site.Made scope fun parts => (w.construct.rewriteMatch settings context ⟨parts,nuid,scope⟩) := by
  induction tree with
  | nil => exact List.forall_mem_nil _
  | text t rest ih =>
    exact List.forall_mem_cons.mpr ⟨trivial,ih nested (List.forall_mem_cons.mp proper).2 apart.tail⟩
  | wrap v inner rest one two =>
    simp only [isNested,Bool.and_eq_true,Bool.not_eq_true',List.contains_eq_mem,decide_eq_false_iff_not] at nested
    obtain ⟨⟨free,inside⟩,behind⟩ := nested
    simp only [tokens,List.forall_mem_cons,List.forall_mem_append] at proper
    obtain ⟨_,properInner,_,properRest⟩ := proper
    rw [tokens] at apart
    have others := two behind properRest apart.tail.right_of_append.tail
    rw [sites]
    split
    · rename_i same
      subst same
      refine List.forall_mem_cons.mpr ⟨?_,others⟩
      have markSome : liveAtoms v.mark ≠ [] := by rcases v.mark_letters with same | same <;> simp [same,liveAtoms]
      refine ⟨by simp [markSome],?_,?_,fun parts whole => ?_⟩
      · intro part head
        rw [List.head?_append_of_ne_nil _ markSome] at head
        exact liveAtoms_opens _ _ part head
      · exact ((liveAtoms_shuts scope v.mark).append markSome).append (by simp [markSome])
      · have visible := visible_shown scope v.index inner
        have ended : (inner.tokens ++ [Token.mark v]).IsChain Token.Apart := by
          have whole := apart.tail
          rw [List.tail_cons,List.append_cons] at whole
          exact whole.left_of_append
        have passes := Token.spelling_passes
          (List.forall_mem_append.mpr ⟨properInner,List.forall_mem_singleton.mpr rfl⟩) ended free
        rw [Token.spelling_cons,Token.spelled,if_neg (Nat.lt_irrefl _),Token.spelling_nil,List.append_nil,← visible] at passes
        refine Wrapper.rewriteMatch_wraps whole ?_ ?_ passes
        · exact visible ▸ Token.spelling_some properInner apart
        · exact visible ▸ Token.spelling_written properInner
    · exact List.forall_mem_cons.mpr ⟨trivial,List.forall_mem_append.mpr
        ⟨one inside properInner apart.tail.left_of_append,List.forall_mem_cons.mpr ⟨trivial,others⟩⟩⟩

-- One wrapper takes the text a stage further.
theorem apply_wrapper {settings : CompileSettings} {context : Context} {d : Draft} (wellFormed : tree.WellFormed)
    (here : atoms d.parts = tree.shown w.index) : ∃ e, (w.construct.apply settings context d).outcome = .ok e ∧
      atoms e.parts = tree.shown (w.index + 1) := by
  obtain ⟨proper,nested,apart⟩ := wellFormed
  rw [← sites_made nested]
  refine applyAt_sites (here.trans (sites_parts w tree).symm) ?_ (sites_rewritten nested proper apart)
  show Site.Taken _ _ _ (Token.spelling w.index [])
  exact sites_taken nested (by simpa using proper) (by simpa using apart)

end Inlines

namespace Construct

-- Characters that neither plain text nor a mark has.
def unwritten : List Char :=
  ['\x60','$','\\','/','%','@','[','_',':','&']

-- A construct that matches only where it reads one of them.
def isQuiet (c : Construct) : Bool :=
  unwritten.any fun x => c.pattern.needs (· == .one x)

variable {c : Construct} {settings : CompileSettings} {context : Context} {d : Draft}

theorem apply_quiet (quiet : c.isQuiet = true)
    (written : ∀ x ∈ visibleContentOf (some c.name) d.parts, Wrapper.isWritten x = true) :
    c.apply settings context d = pure d := by
  have other : unwritten.all (fun x => !Wrapper.isWritten x) = true := by decide
  obtain ⟨x,member,needed⟩ := List.any_eq_true.mp quiet
  have absent : x ∉ visibleContentOf (some c.name) d.parts := by
    intro inside
    simpa [written x inside] using List.all_eq_true.mp other x member
  have none : Draft.spansOf c.name c.pattern d = [] := by
    rw [Draft.spansOf,Pattern.needs_occurrences needed absent]
    rfl
  rw [apply,none]
  rfl

-- Constructs that take a text from a stage to another: quiet ones, and the wrappers in their order.
inductive Passing : Nat → List Construct → Nat → Prop where
  | nil {n : Nat} : Passing n [] n
  | quiet {m n : Nat} {c : Construct} {rest : List Construct} (quiet : c.isQuiet = true) (later : Passing m rest n) :
      Passing m (c :: rest) n
  | wrapper {n : Nat} {rest : List Construct} (w : Wrapper) (later : Passing (w.index + 1) rest n) :
      Passing w.index (w.construct :: rest) n

theorem standard_passing : Passing 0 Inline.standard 7 := by
  unfold Inline.standard
  iterate 15 refine .quiet (by decide +kernel) ?_
  refine .wrapper .highlight (.wrapper .bold (.quiet (by decide +kernel) ?_))
  refine .wrapper .italic (.quiet (by decide +kernel) ?_)
  refine .wrapper .strikethrough (.wrapper .underlined (.wrapper .superscript (.wrapper .subscript ?_)))
  iterate 6 refine .quiet (by decide +kernel) ?_
  exact .nil

-- A run of them takes it there.
theorem Passing.run {tree : Inlines} {constructs : List Construct} {m n : Nat} (passing : Passing m constructs n)
    (wellFormed : tree.WellFormed) (all : settings.excluded = .nothing) (here : Draft.atoms d.parts = tree.shown m) :
    ∃ e, (applyEach settings context constructs d).outcome = .ok e ∧ Draft.atoms e.parts = tree.shown n := by
  induction passing generalizing d with
  | nil => exact ⟨d,rfl,here⟩
  | @quiet m n c rest quiet later ih =>
    have written : ∀ x ∈ visibleContentOf (some c.name) d.parts, Wrapper.isWritten x = true := by
      rw [← Draft.visibleContentOf_atoms,here,tree.visible_shown]
      exact Token.spelling_written wellFormed.proper
    simpa [applyEach,all,Exclusion.contains,apply_quiet quiet written] using ih here
  | wrapper w later ih =>
    obtain ⟨next,ran,there⟩ : ∃ e, (w.construct.apply settings context _).outcome = .ok e ∧ _ :=
      tree.apply_wrapper wellFormed here
    obtain ⟨e,others,same⟩ := ih there
    refine ⟨e,?_,same⟩
    simpa [applyEach,all,Exclusion.contains] using Logged.outcome_bind_ok.mpr ⟨next,ran,others⟩

end Construct

namespace Inlines

-- Compiling the text of a tree makes the HTML of the tree.
theorem compile_html {tree : Inlines} (wellFormed : tree.WellFormed) (context : Context) (nuid : Option Text) :
    ∃ e, ((Draft.ofLive tree.render .nothing nuid).compile Inline.standard {} context).outcome = .ok e ∧
      e.content = tree.html := by
  have first : Draft.atoms (Draft.ofLive tree.render .nothing nuid).parts = tree.shown 0 := by
    rw [tree.shown_first]
    simp [Draft.ofLive,Part.atoms,Draft.liveAtoms]
  obtain ⟨e,ran,last⟩ : ∃ e, (Construct.applyEach {} context Inline.standard _).outcome = .ok e ∧ _ :=
    Construct.standard_passing.run wellFormed rfl first
  refine ⟨e,ran,?_⟩
  rw [Draft.content,← Draft.contentOf_atoms,last,tree.contentOf_shown]

-- Bold in italic and the other way round, and single and double tildes in one another.
def interwoven : Inlines :=
  .wrap .italic (.text "a " (.wrap .bold (.text "b" .nil) (.text "1" .nil)))
    (.text "c" (.wrap .bold (.text "d" (.wrap .italic (.text "e" .nil) (.text "2" .nil)))
      (.text " " (.wrap .subscript (.text "f" (.wrap .strikethrough (.text "g" .nil) (.text "3" .nil))) .nil))))

theorem compile_html_interwoven : interwoven.WellFormed ∧
    interwoven.render = "*a **b**1*c**d*e*2** ~f~~g~~3~" ∧
    ∃ e, ((Draft.ofLive interwoven.render .nothing none).compile Inline.standard {} ⟨none,none⟩).outcome = .ok e ∧
      e.content = "<em class=\"italic\">a <strong class=\"bold\">b</strong>1</em>c<strong class=\"bold\">d" ++
        "<em class=\"italic\">e</em>2</strong> <sub class=\"subscript\">f<del class=\"strikethrough\">g</del>3</sub>" := by
  have wellFormed : interwoven.WellFormed := ⟨by decide +kernel,by decide +kernel,by decide +kernel⟩
  obtain ⟨e,ran,content⟩ := compile_html wellFormed ⟨none,none⟩ none
  refine ⟨wellFormed,?_,e,ran,content.trans ?_⟩
  all_goals
    simp only [interwoven,render,html,Wrapper.mark,Wrapper.opening,Wrapper.closing]
    repeat rw [Text.ofString_ofList]
    rfl

end Inlines
end LightMarkup
