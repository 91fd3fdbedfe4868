import LightMarkup.Proofs.Loading.Quoting

/-!
Constructs without a loading rule. A construct that has lost its loading rule is passed over as if the catalogue did not have
it: the same blocks, the same failure, and one warning more for every time. Only the room for containers inside each other
is less, since a construct takes its share of it whether it is loaded or not.
-/

namespace LightMarkup

-- The warning of a construct that is skipped.
def skipNotice (construct : String) : Entry :=
  ⟨.warning,.loading,missingLoadingRuleText construct ++ ": construct skipped"⟩

variable {α β : Type} {names : List String} {settings : LoadSettings}

/-- The entries that are no warnings of constructs with the given names. -/
def withoutSkips (names : List String) (log : List Entry) : List Entry :=
  log.filter fun entry => !(names.map skipNotice).contains entry

-- The same run but for the warnings, unless the first one has no room where it is short of it, or is strict.
def Logged.Spares (short : Prop) (names : List String) (settings : LoadSettings) (one two : Logged α) : Prop :=
  (one.outcome = two.outcome ∧ two.log = withoutSkips names one.log) ∨
    (short ∧ one.outcome = .error (.fault .endless)) ∨
    (settings.strictLoadingRules = true ∧ ∃ name ∈ names, one.outcome = .error (.missingLoadingRule name))

namespace Logged.Spares

variable {short shorter : Prop}

theorem mono {one two : Logged α} (implies : short → shorter) (spares : Spares short names settings one two) :
    Spares shorter names settings one two :=
  spares.imp_right (Or.imp_left (And.imp_left implies))

theorem stopped {x : Logged α} {f : α → Logged β} {y : Logged β}
    (stops : (short ∧ x.outcome = .error (.fault .endless)) ∨
      (settings.strictLoadingRules = true ∧ ∃ name ∈ names, x.outcome = .error (.missingLoadingRule name))) :
    Spares short names settings (x >>= f) y := by
  rcases stops with ⟨isShort,full⟩ | ⟨strict,name,member,missing⟩
  · exact Or.inr (Or.inl ⟨isShort,outcome_bind_error.mpr (Or.inl full)⟩)
  · exact Or.inr (Or.inr ⟨strict,name,member,outcome_bind_error.mpr (Or.inl missing)⟩)

theorem bind {x y : Logged α} {f g : α → Logged β} (first : Spares short names settings x y)
    (later : ∀ a, x.outcome = .ok a → Spares short names settings (f a) (g a)) :
    Spares short names settings (x >>= f) (y >>= g) := by
  rcases first with ⟨same,log⟩ | stops
  · cases ran : x.outcome with
    | error failure =>
      rw [bind_error ran,bind_error (same.symm.trans ran)]
      exact Or.inl ⟨rfl,log⟩
    | ok a =>
      rcases later a ran with ⟨sameLater,logLater⟩ | ⟨isShort,full⟩ | ⟨strict,name,member,missing⟩
      · rw [bind_ok ran,bind_ok (same.symm.trans ran)]
        exact Or.inl ⟨sameLater,by rw [log,logLater,withoutSkips,withoutSkips,withoutSkips,List.filter_append]⟩
      · exact Or.inr (Or.inl ⟨isShort,outcome_bind_error.mpr (Or.inr ⟨a,ran,full⟩)⟩)
      · exact Or.inr (Or.inr ⟨strict,name,member,outcome_bind_error.mpr (Or.inr ⟨a,ran,missing⟩)⟩)
  · exact stopped stops

-- What is written stays if it is no such warning.
theorem written {level : Level} {origin : Origin} {message : Text}
    (other : ∀ name ∈ names, skipNotice name ≠ ⟨level,origin,message⟩) :
    Spares short names settings (.write level origin message) (.write level origin message) := by
  refine Or.inl ⟨rfl,?_⟩
  have kept : (names.map skipNotice).contains ⟨level,origin,message⟩ = false := by
    rw [List.contains_eq_mem,decide_eq_false_iff_not,List.mem_map]
    rintro ⟨name,member,same⟩
    exact other name member same
  show [_] = withoutSkips names [_]
  rw [withoutSkips,List.filter_cons_of_pos (by rw [kept]; rfl),List.filter_nil]

variable (short names settings)

theorem lockstep : Lockstep (Spares short names settings) where
  except _ := Or.inl ⟨rfl,rfl⟩
  write quiet := by
    refine written fun name _ same => ?_
    have complaint := Failure.Reports.isComplaint (.loadingRule name)
    rw [show (⟨.warning,.loading,_⟩ : Entry) = skipNotice name from rfl,same,quiet] at complaint
    cases complaint
  bind := bind

theorem quotes : QuotesComplain (Spares short names settings) settings.strictQuotes settings.strictQuotes := by
  intro line
  unfold complain
  split
  · exact Or.inl ⟨rfl,rfl⟩
  · exact written fun name _ same => by cases same

variable {short names settings}

theorem loads {construct : BlockConstruct} {loading : Loading} {raw : Text} {nested other : Nested}
    (inside : ∀ t, Spares short names settings (nested t) (other t)) :
    Spares short names settings (loading.load settings nested construct raw) (loading.load settings other construct raw) :=
  Loading.load_step (lockstep _ _ _) (quotes _ _ _) (fun _ _ => Or.inl ⟨rfl,rfl⟩) (fun _ _ => Or.inl ⟨rfl,rfl⟩) inside

end Logged.Spares

open Logged (Spares)

namespace Catalogue

end Catalogue

namespace Loader

variable {c : Catalogue} {short : Prop} {nested other : Nat → Nested}

open Catalogue

end Loader

namespace Nested

variable {c : Catalogue} {room more tried before : Nat}

end Nested

namespace Loader

structure QuotesLast (c : Catalogue) (front : List BlockConstruct) : Prop where
  blocks : c.blocks = front ++ [Block.quote]
  without : ∀ construct ∈ front, construct.loading = none
  headings : c.headings = HeadingConstruct.standard

open Quote (Quotable quotedTimes body)

variable {front : List BlockConstruct} {lines : List Text} {levels times room : Nat}

theorem partition_without {loader : Loader} (lenient : loader.settings.strictLoadingRules = false)
    (without : ∀ construct ∈ front, construct.loading = none) (rest : List BlockConstruct) (t : Text) :
    (loader.partition (front ++ rest) 0 t none).outcome = (loader.partition rest 0 t none).outcome := by
  induction front with
  | nil => rfl
  | cons construct front ih =>
    obtain ⟨here,others⟩ := List.forall_mem_cons.mp without
    rw [List.cons_append,partition_skip here,LoadSettings.skip,lenient,Logged.outcome_bind]
    exact ih others

theorem QuotesLast.partition {loader : Loader} (quotes : QuotesLast loader.catalogue front)
    (lenient : loader.settings.strictLoadingRules = false) {bodies : List Text} (some : lines ≠ [])
    (each : List.Forall₂ Quote.Marked lines bodies) (untyped : ∀ body ∈ bodies.head?, Quote.typeOf? body = none) :
    (loader.partition loader.catalogue.blocks 0 (Text.join ['\n'] lines) none).outcome =
      (loader.nested (front.length + 1) (Text.join ['\n'] bodies)).outcome.map fun paragraphs =>
        ([quoteBlock (Text.trimEnd (Text.join ['\n'] lines)) paragraphs],none) := by
  have alone : loader.partition [Block.quote] 0 (Text.join ['\n'] lines) none = _ :=
    partition_quoted [] [] quotes.headings (List.nil_subset _) (List.nil_subset _) some each untyped
  have tried : loader.catalogue.blocks.length - ([] : List BlockConstruct).length = front.length + 1 := by
    rw [quotes.blocks]
    simp
  rw [quotes.blocks,partition_without lenient quotes.without,alone,tried,Logged.outcome_debug_bind]
  exact Logged.outcome_bind_pure _ _

theorem QuotesLast.loaded {loader : Loader} (quotes : QuotesLast loader.catalogue front)
    (lenient : loader.settings.strictLoadingRules = false) {bodies : List Text} (some : lines ≠ [])
    (each : List.Forall₂ Quote.Marked lines bodies) (untyped : ∀ body ∈ bodies.head?, Quote.typeOf? body = none) :
    (loader.blocks (Text.join ['\n'] lines)).outcome =
      (loader.nested (front.length + 1) (Text.join ['\n'] bodies)).outcome.map fun paragraphs =>
        [quoteBlock (Text.trimEnd (Text.join ['\n'] lines)) paragraphs] := by
  have sorted : (loader.blocks (Text.join ['\n'] lines)).outcome =
      (loader.partition loader.catalogue.blocks 0 (Text.join ['\n'] lines) none).outcome.map fun held => sortBlocks held.1 :=
    Logged.outcome_bind_pure _ _
  rw [sorted,quotes.partition lenient some each untyped]
  cases (loader.nested (front.length + 1) (Text.join ['\n'] bodies)).outcome with
  | error failure => rfl
  | ok paragraphs => simp only [Except.map,sortBlocks,List.mergeSort_singleton]

end Loader

namespace Nested

open Loader Quote

variable {c : Catalogue} {front : List BlockConstruct} {lines : List Text} {room : Nat}

end Nested

namespace Loader

open Quote

variable {c : Catalogue} {front : List BlockConstruct} {lines : List Text}

theorem load_blocks {levels : Nat} {t : Text} (outside : settings.levelsFrom 0 = levels + 1) :
    load c settings t = blocks ⟨c,settings,Nested.within c settings levels Nested.room⟩ t := by
  rw [load,partitionAt,outside]
  exact Logged.bind_assoc _ _ _

theorem QuotesLast.load {levels times : Nat} (quotes : QuotesLast c front) (lenient : settings.strictLoadingRules = false)
    (quotable : Quotable lines) (outside : settings.levelsFrom 0 = levels + 1) :
    (Loader.load c settings (Text.join ['\n'] (quotedTimes lines (times + 1)))).outcome =
      (Nested.within c settings levels Nested.room (front.length + 1) (body lines times)).outcome.map fun paragraphs =>
        [quoteBlock (Text.trimEnd (Text.join ['\n'] (quotedTimes lines (times + 1)))) paragraphs] := by
  rw [load_blocks outside]
  exact QuotesLast.loaded quotes lenient (quotable.some_times (times + 1)) (quotable.marked_times times)
    (quotable.untyped_times times)

end Loader
end LightMarkup
