import LightMarkup.Proofs.Draft.Atoms
import LightMarkup.Proofs.Pattern.Preferring

/-!
Sites: a text laid out as a construct takes it, stretches that stay and matches with what is made of them. Where the
pattern takes each match and passes each stretch, a rewriting of the draft makes of the text what is made of its sites.
-/

namespace LightMarkup
namespace Draft

inductive Site where
  | kept (parts : List Part)
  | found (parts made : List Part)
  deriving DecidableEq, Repr

namespace Site

variable {scope : Option String} {p : Pattern} {sites others : List Site} {before t : Text}

def parts : Site → List Part
  | kept parts => parts
  | found parts _ => parts

def made : Site → List Part
  | kept parts => parts
  | found _ made => made

def visible (scope : Option String) (site : Site) : Text :=
  visibleContentOf scope site.parts

def spans (scope : Option String) (position : Nat) : List Site → List (Nat × Nat)
  | [] => []
  | kept parts :: rest => spans scope (position + (visibleContentOf scope parts).length) rest
  | found parts _ :: rest =>
    (position,position + (visibleContentOf scope parts).length) ::
      spans scope (position + (visibleContentOf scope parts).length) rest

theorem visible_parts (scope : Option String) (sites : List Site) :
    visibleContentOf scope (sites.flatMap parts) = sites.flatMap (visible scope) := by
  induction sites with
  | nil => rfl
  | cons site rest ih => rw [List.flatMap_cons,visibleContentOf_append,ih,List.flatMap_cons,visible]

-- The pattern takes the matches and nothing else, if `t` comes behind.
def Taken (scope : Option String) (p : Pattern) : List Site → Text → Prop
  | [], _ => True
  | kept parts :: rest, t =>
    (∀ n < (visibleContentOf scope parts).length, ∀ c : Cursor,
      c.after = (visibleContentOf scope parts).drop n ++ (rest.flatMap (visible scope) ++ t) → p.ways c = []) ∧
    Taken scope p rest t
  | found parts _ :: rest, t =>
    (visibleContentOf scope parts ≠ [] ∧ ∀ c : Cursor,
      c.after = visibleContentOf scope parts ++ (rest.flatMap (visible scope) ++ t) →
        ∃ captures, (p.ways c).head? = some (c.past (visibleContentOf scope parts).length,captures)) ∧
    Taken scope p rest t

theorem taken_append : Taken scope p (sites ++ others) t ↔
    Taken scope p sites (others.flatMap (visible scope) ++ t) ∧ Taken scope p others t := by
  induction sites with
  | nil => simp [Taken]
  | cons site rest ih => cases site <;> simp [Taken,ih,and_assoc]

-- A search finds the matches, and what it finds behind them.
theorem scan_taken (before : Text) (taken : Taken scope p sites t) :
    (Pattern.scanFrom Match.length p.matchSomeAt? before 0 (sites.flatMap (visible scope) ++ t)).map Match.span =
      spans scope before.length sites ++
        (Pattern.scanFrom Match.length p.matchSomeAt? ((sites.flatMap (visible scope)).reverse ++ before) 0 t).map
          Match.span := by
  induction sites generalizing before with
  | nil => rfl
  | cons site rest ih =>
    rw [List.flatMap_cons,List.append_assoc,List.reverse_append,List.append_assoc]
    cases site with
    | kept parts =>
      obtain ⟨dead,later⟩ := taken
      rw [visible,Site.parts,Pattern.scan_pass,ih _ later,spans]
      · simp [Nat.add_comm]
      · intro n inside
        refine Pattern.matchSomeAt_none.mpr ?_
        rw [dead n inside _ (by simp [List.drop_append_of_le_length (Nat.le_of_lt inside)])]
        exact List.forall_mem_nil _
    | found parts made =>
      obtain ⟨⟨some,taken⟩,later⟩ := taken
      obtain ⟨captures,head⟩ :=
        taken ⟨before,visibleContentOf scope parts ++ (rest.flatMap (visible scope) ++ t)⟩ rfl
      generalize start : (⟨before,visibleContentOf scope parts ++ (rest.flatMap (visible scope) ++ t)⟩ : Cursor) = c at head
      have position : c.position = before.length := by simp [← start,Cursor.position]
      have stop : (c.past (visibleContentOf scope parts).length).position =
          before.length + (visibleContentOf scope parts).length := by
        rw [Cursor.past_position (by simp [← start]),position]
      have length : (⟨c,c.past (visibleContentOf scope parts).length,captures⟩ : Match).length =
          (visibleContentOf scope parts).length := by
        rw [Match.length,stop,position]
        omega
      have here : p.matchSomeAt? c = Option.some ⟨c,c.past (visibleContentOf scope parts).length,captures⟩ := by
        refine Pattern.matchSomeAt_some (by rw [Pattern.matchAt_head,head]; rfl) ?_
        rw [length]
        exact Nat.pos_iff_ne_zero.mp (List.length_pos_iff.mpr some)
      rw [visible,Site.parts,Pattern.scan_take (start ▸ here) some length,List.map_cons,ih _ later,spans,Match.span,stop,
        position]
      simp [Nat.add_comm]

theorem occurrences_taken (taken : Taken scope p sites []) :
    (p.occurrences (visibleContentOf scope (sites.flatMap parts))).map Match.span = spans scope 0 sites := by
  have none : Pattern.scanFrom Match.length p.matchSomeAt? (sites.flatMap (visible scope)).reverse 0 [] = [] := by
    simp [Pattern.scanFrom,(Pattern.occurrences_find p).not_at_end]
  have all := scan_taken [] taken
  rwa [List.append_nil,List.append_nil,none,List.map_nil,List.append_nil,← visible_parts] at all

-- No match lies over the place where they end.
theorem spans_within (scope : Option String) (position : Nat) (sites : List Site) :
    ∀ span ∈ spans scope position sites, span.2 ≤ position + (visibleContentOf scope (sites.flatMap parts)).length := by
  induction sites generalizing position with
  | nil => exact List.forall_mem_nil _
  | cons site rest ih =>
    intro span member
    rw [List.flatMap_cons,visibleContentOf_append,List.length_append]
    cases site with
    | kept parts =>
      have later := ih _ span member
      rw [Site.parts]
      omega
    | found parts made =>
      rw [Site.parts]
      rcases List.mem_cons.mp member with rfl | member
      · dsimp only
        omega
      · have later := ih _ span member
        omega

end Site

variable {scope : Option String} {parts front pending : List Part} {sites : List Site} {first position : Nat}
  {construct : String} {pattern : Pattern} {rewrite : Draft → Logged (List Part)} {d : Draft}

-- A match has no hidden part at its ends, and however it is cut into parts the same is made of it.
def Site.Made (scope : Option String) (rewrite : List Part → Logged (List Part)) : Site → Prop
  | .kept _ => True
  | .found parts made => parts ≠ [] ∧ Opens scope parts ∧ Shuts scope parts ∧
    ∀ inner, atoms inner = parts → ∃ out, (rewrite inner).outcome = .ok out ∧ atoms out = made

theorem Shuts.append {one two : List Part} (shuts : Shuts scope two) (some : two ≠ []) : Shuts scope (one ++ two) := by
  intro part last
  rw [List.getLast?_append_of_ne_nil _ some] at last
  exact shuts part last

-- The induction is on the sites: `front` ends with the last match before them, and `pending` is what stands behind it.
theorem spliced_sites {rewrite : List Part → Logged (List Part)}
    (whole : atoms parts = front ++ (pending ++ sites.flatMap Site.parts))
    (begins : (visibleContentOf scope front).length = first)
    (reach : first + (visibleContentOf scope pending).length = position) (shuts : Shuts scope front)
    (made : ∀ site ∈ sites, site.Made scope rewrite) :
    ∃ outs, ((Site.spans scope position sites).mapM fun span => rewrite (matchedAt scope parts span)).outcome = .ok outs ∧
      atoms (spliced scope parts (visibleContentOf scope parts).length first (Site.spans scope position sites) outs) =
        pending ++ sites.flatMap Site.made := by
  induction sites generalizing front pending first position with
  | nil =>
    have length : first + (visibleContentOf scope pending).length = (visibleContentOf scope parts).length := by
      rw [← visibleContentOf_atoms scope parts,whole]
      simp [begins]
    have last := stretch_atoms whole begins length shuts fun part none => by cases none
    exact ⟨[],rfl,by simpa [Site.spans,spliced] using last⟩
  | cons site rest ih =>
    obtain ⟨here,later⟩ := List.forall_mem_cons.mp made
    cases site with
    | kept more =>
      have shifted : atoms parts = front ++ ((pending ++ more) ++ rest.flatMap Site.parts) := by
        simpa [Site.parts] using whole
      have far : first + (visibleContentOf scope (pending ++ more)).length =
          position + (visibleContentOf scope more).length := by
        simp [← reach,Nat.add_assoc]
      obtain ⟨outs,ran,same⟩ := ih shifted begins far shuts later
      exact ⟨outs,ran,by simpa [Site.spans,Site.made] using same⟩
    | found inner becomes =>
      obtain ⟨some,opens,closed,makes⟩ := here
      have split : atoms parts = front ++ (pending ++ (inner ++ rest.flatMap Site.parts)) := by
        simpa [Site.parts] using whole
      have before : atoms (stretch scope parts first position) = pending := by
        refine stretch_atoms split begins reach shuts fun part head => opens part ?_
        rwa [List.head?_append_of_ne_nil _ some] at head
      have inside : atoms (matchedAt scope parts (position,position + (visibleContentOf scope inner).length)) = inner :=
        matchedAt_atoms (by rw [split,List.append_assoc]) (by simp [begins,reach]) rfl some opens closed
      obtain ⟨out,ran,result⟩ := makes _ inside
      have behind : atoms parts = (front ++ (pending ++ inner)) ++ ([] ++ rest.flatMap Site.parts) := by simp [split]
      have length : (visibleContentOf scope (front ++ (pending ++ inner))).length =
          position + (visibleContentOf scope inner).length := by simp [begins,← reach,Nat.add_assoc]
      obtain ⟨outs,others,same⟩ := ih behind length rfl ((closed.append some).append (by simp [some])) later
      refine ⟨out :: outs,?_,?_⟩
      · rw [Site.spans,List.mapM_cons,Logged.outcome_bind_ok]
        exact ⟨out,ran,Logged.outcome_bind_ok.mpr ⟨outs,others,rfl⟩⟩
      · simpa [Site.spans,spliced,before,result,Site.made] using same

-- A text laid out in sites becomes what is made of them.
theorem applyAt_sites (whole : atoms d.parts = sites.flatMap Site.parts)
    (taken : Site.Taken (some construct) pattern sites [])
    (made : ∀ site ∈ sites, site.Made (some construct) fun parts => rewrite ⟨parts,d.nuid,some construct⟩) :
    ∃ e, (d.applyAt construct (spansOf construct pattern d) rewrite).outcome = .ok e ∧
      atoms e.parts = sites.flatMap Site.made := by
  have spans : spansOf construct pattern d = Site.spans (some construct) 0 sites := by
    rw [spansOf,← visibleContentOf_atoms,whole,Site.occurrences_taken taken]
  have edge : Shuts (some construct) [] := fun part none => by cases none
  have behind : atoms d.parts = [] ++ ([] ++ sites.flatMap Site.parts) := whole
  obtain ⟨outs,ran,same⟩ := spliced_sites behind rfl rfl edge made
  simp only [visibleContentOf_nil,List.length_nil,Nat.add_zero,List.nil_append] at ran same
  rw [applyAt_eq (spansOf_inOrder construct pattern d),spans]
  split
  · rename_i none
    have alone : atoms d.parts = [] ++ (atoms d.parts ++ []) := by simp
    have kept : atoms (stretch (some construct) d.parts 0 (visibleContentOf (some construct) d.parts).length) =
        atoms d.parts :=
      stretch_atoms alone rfl (by rw [visibleContentOf_atoms,Nat.zero_add]) edge fun part none => by cases none
    have unspliced : spliced (some construct) d.parts (visibleContentOf (some construct) d.parts).length 0 [] outs =
        stretch (some construct) d.parts 0 (visibleContentOf (some construct) d.parts).length := by
      cases outs <;> rfl
    rw [none,unspliced,kept] at same
    exact ⟨d,rfl,same⟩
  · exact ⟨_,Logged.outcome_bind_ok.mpr ⟨(),rfl,Logged.outcome_bind_ok.mpr ⟨outs,ran,rfl⟩⟩,same⟩

section

variable {back out : List Part} {spans : List (Nat × Nat)} {t u w : Text} {nuid : Option Text}

theorem visible_live (scope : Option String) (t : Text) : visibleContentOf scope [.live t .nothing] = t := by
  cases scope <;> simp [visibleContentOf,Part.visibleTo,Exclusion.contains,Part.content]

-- One match in a text, and nothing before it or behind it.
theorem spansOf_one (some : t ≠ []) (visible : visibleContentOf (.some construct) d.parts = u ++ (t ++ w))
    (before : ∀ n < u.length, ∀ c : Cursor, c.after = u.drop n ++ (t ++ w) → pattern.ways c = [])
    (taken : ∀ c : Cursor, c.after = t ++ w → ∃ captures, (pattern.ways c).head? = .some (c.past t.length,captures))
    (behind : ∀ n < w.length, ∀ c : Cursor, c.after = w.drop n → pattern.ways c = []) :
    spansOf construct pattern d = [(u.length,u.length + t.length)] := by
  have sites : Site.Taken (.some construct) pattern
      [.kept [.live u .nothing],.found [.live t .nothing] [],.kept [.live w .nothing]] [] := by
    simpa [Site.Taken,Site.visible,Site.parts,visible_live] using ⟨before,⟨some,taken⟩,behind⟩
  have spans := Site.occurrences_taken sites
  simp only [Site.spans,visible_live,Nat.zero_add,List.flatMap_cons,List.flatMap_nil,Site.parts,visibleContentOf_append,
    List.append_nil] at spans
  rw [spansOf,visible]
  exact spans

theorem spansOf_alone (some : t ≠ []) (visible : visibleContentOf (.some construct) d.parts = t)
    (taken : ∀ c : Cursor, c.after = t → ∃ captures, (pattern.ways c).head? = .some (c.past t.length,captures)) :
    spansOf construct pattern d = [(0,t.length)] := by
  have none : ∀ {P : Nat → Prop}, ∀ n < ([] : Text).length, P n := fun n inside => absurd inside (Nat.not_lt_zero n)
  have whole : visibleContentOf (.some construct) d.parts = [] ++ (t ++ []) := by rw [visible,List.append_nil,List.nil_append]
  have spans := spansOf_one some whole none (fun c begins => taken c (by rwa [List.append_nil] at begins)) none
  rwa [List.length_nil,Nat.zero_add] at spans

theorem cutFrom_hidden (hidden : ∀ part ∈ front, part.visibleTo scope = false)
    (ahead : ∀ span ∈ spans.head?, position ≤ span.1) (rest : List Part) :
    cutFrom scope position spans (front ++ rest) = front.map .outside ++ cutFrom scope position spans rest := by
  induction front with
  | nil => rfl
  | cons part front ih =>
    obtain ⟨here,others⟩ := List.forall_mem_cons.mp hidden
    have next := ih others
    cases spans with
    | nil => simp [cutFrom,here,next]
    | cons span spans => simp [cutFrom,here,next,Nat.not_lt.mpr (ahead span rfl)]

theorem cutVisible_one (some : t ≠ []) : cutVisible (.live (u ++ (t ++ w)) .nothing) 0 [(u.length,u.length + t.length)] =
    ((Part.live u .nothing).keep.map .outside ++ .inside (.live t .nothing) :: .close ::
      (Part.live w .nothing).keep.map .outside,[]) := by
  have inner : (Part.live t .nothing).keep = [.live t .nothing] := Part.keep_some some
  have enough : ¬ t.length + w.length < t.length := by omega
  simp [cutVisible,keepSome_eq,Part.withContent,Part.content,inner,enough]

-- One match in the only part that can be seen.
theorem applyAt_one (some : t ≠ []) (before : ∀ part ∈ front, part.visibleTo (.some construct) = false)
    (behind : ∀ part ∈ back, part.visibleTo (.some construct) = false)
    (rewrites : rewrite ⟨[.live t .nothing],nuid,.some construct⟩ = pure out) :
    (applyAt construct [(u.length,u.length + t.length)] rewrite
        ⟨front ++ .live (u ++ (t ++ w)) .nothing :: back,nuid,scope⟩).outcome =
      .ok ⟨front ++ ((Part.live u .nothing).keep ++ out ++ (Part.live w .nothing).keep) ++ back,nuid,scope⟩ := by
  have visible : (Part.live (u ++ (t ++ w)) .nothing).visibleTo (.some construct) = true := rfl
  have last : ∀ position, cutFrom (.some construct) position [] back = back.map .outside := by
    intro position
    have all : cutFrom (.some construct) position [] (back ++ []) = _ :=
      cutFrom_hidden behind (fun _ none => by cases none) []
    simpa [cutFrom] using all
  have kept : ∀ rewrite, splice construct rewrite [] (back.map .outside) = pure back := by
    intro rewrite
    have all : splice construct rewrite [] (back.map .outside ++ []) = _ := splice_outside [] back []
    simpa [splice] using all
  rw [applyAt]
  show Logged.outcome (_ >>= fun _ => _ >>= _) = _
  rw [cutFrom_hidden before (fun _ _ => Nat.zero_le _),cutFrom,if_pos visible,cutVisible_one some]
  simp only [last,List.append_assoc,List.cons_append,splice_outside,splice,List.nil_append,rewrites,kept,
    pure_bind]
  rfl

theorem applyAt_alone (some : t ≠ []) (before : ∀ part ∈ front, part.visibleTo (.some construct) = false)
    (behind : ∀ part ∈ back, part.visibleTo (.some construct) = false)
    (rewrites : rewrite ⟨[.live t .nothing],nuid,.some construct⟩ = pure out) :
    (applyAt construct [(0,t.length)] rewrite ⟨front ++ .live t .nothing :: back,nuid,scope⟩).outcome =
      .ok ⟨front ++ out ++ back,nuid,scope⟩ := by
  have applied : (applyAt construct _ rewrite ⟨front ++ .live ([] ++ (t ++ [])) .nothing :: back,nuid,scope⟩).outcome = _ :=
    applyAt_one some before behind rewrites
  simpa [Part.keep,Part.content] using applied

end

end Draft
end LightMarkup
