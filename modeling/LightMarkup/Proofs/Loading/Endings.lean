import LightMarkup.Construct.Block
import LightMarkup.Proofs.Pattern.Preferring

/-!
Where a block may end: before a blank line, a line that begins with a hash, or the end of the text.
-/

namespace LightMarkup

theorem CharSet.gap_cases {x : Char} (isGap : gap.contains x = true) : x = ' ' ∨ x = '\t' := by
  simpa [gap,contains,Union.union] using isGap

namespace Block

open Pattern

abbrev Gaps (t : Text) : Prop :=
  ∀ x ∈ t, CharSet.gap.contains x = true

abbrev Break (t : Text) : Prop :=
  t = ['\n'] ∨ t = ['\r','\n']

-- The end of a line, or of the text.
def Stops (t : Text) : Prop :=
  t = [] ∨ ∃ b u, t = b ++ u ∧ Break b

-- The end of the text, or of a line before a blank one or one that begins with a hash.
def Closes (t : Text) : Prop :=
  t = [] ∨ ∃ b u, t = b ++ u ∧ Break b ∧ (u.head? = some '#' ∨ ∃ g v, u = g ++ v ∧ Gaps g ∧ Stops v)

-- What may stand behind a block.
def Ends (t : Text) : Prop :=
  ∃ g u, t = g ++ u ∧ Gaps g ∧ Closes u

variable {c : Cursor} {way : Way} {t u : Text}

theorem Ends.nil : Ends [] :=
  ⟨[],[],rfl,List.forall_mem_nil _,Or.inl rfl⟩

theorem Gaps.blank (gaps : Gaps t) : ∀ x ∈ t, Text.isBlank x = true := by
  intro x member
  rcases CharSet.gap_cases (gaps x member) with rfl | rfl <;> decide

theorem Gaps.single (gaps : Gaps t) : '\n' ∉ t := by
  intro member
  exact absurd (gaps _ member) (by decide)

theorem Break.blank (isBreak : Break t) : ∀ x ∈ t, Text.isBlank x = true := by
  rcases isBreak with rfl | rfl
  · exact List.forall_mem_singleton.mpr rfl
  · exact List.forall_mem_cons.mpr ⟨rfl,List.forall_mem_singleton.mpr rfl⟩

-- Where a block may end before the end of a text, it may end whatever comes behind that text.
theorem Ends.append {last : Char} (solid : Text.isBlank last = false) (ends : Ends (t ++ [last])) (u : Text) :
    Ends (t ++ [last] ++ u) := by
  have notBlank : ∀ {g : Text}, t ++ [last] = g → (∀ x ∈ g, Text.isBlank x = true) → False := by
    rintro g rfl blank
    exact absurd (blank last (by simp)) (by simp [solid])
  obtain ⟨g,v,whole,gaps,rfl | ⟨b,w,rfl,isBreak,after⟩⟩ := ends
  · exact (notBlank whole (by simpa using gaps.blank)).elim
  · refine ⟨g,b ++ w ++ u,by rw [whole,List.append_assoc],gaps,Or.inr ⟨b,w ++ u,List.append_assoc _ _ _,isBreak,?_⟩⟩
    rcases after with hash | ⟨h,x,rfl,others,rfl | ⟨e,y,rfl,ended⟩⟩
    · exact Or.inl (by simp [hash])
    · refine (notBlank whole ?_).elim
      simpa [or_imp,forall_and] using ⟨gaps.blank,isBreak.blank,others.blank⟩
    · refine Or.inr ⟨h,e ++ y ++ u,List.append_assoc _ _ _,others,Or.inr ⟨e,y ++ u,List.append_assoc _ _ _,ended⟩⟩

theorem mem_one {x : Char} : way ∈ (Pattern.char (.one x)).ways c ↔ c.Reads [x] way.1 ∧ way.2 = [] := by
  constructor
  · exact fun found => literal_reads (t := [x]) found
  · rintro ⟨read,none⟩
    have begins : c.after = x :: way.1.after := read.1
    rw [ways_char_cons begins]
    exact mem_waysIf.mpr ⟨by simp [CharSet.contains],Prod.ext read.eq_past none⟩

theorem mem_break : way ∈ lineBreak.ways c ↔ ∃ t, c.Reads t way.1 ∧ Break t ∧ way.2 = [] := by
  constructor
  · intro found
    obtain ⟨first,return_,last,newline,rfl⟩ := mem_seq.mp found
    obtain ⟨read,none⟩ := mem_one.mp newline
    rcases mem_maybe return_ with here | rfl
    · obtain ⟨front,nothing⟩ := mem_one.mp here
      exact ⟨_,front.append read,Or.inr rfl,by simp [none,nothing]⟩
    · exact ⟨_,read,Or.inl rfl,by simp [none]⟩
  · rintro ⟨t,read,rfl | rfl,none⟩
    · exact mem_seq.mpr ⟨(c,[]),by simp [ways_maybe],way,mem_one.mpr ⟨read,none⟩,by simp⟩
    · have return_ : c.Reads ['\r'] (c.past 1) := .of_after read.1
      have newline : (c.past 1).Reads ['\n'] way.1 := by
        have begins : (c.past 1).after = ['\n'] ++ way.1.after := by simp [read.1]
        have stop : way.1 = (c.past 1).past 1 := by rw [read.eq_past,Cursor.past_past]; rfl
        exact stop ▸ .of_after begins
      refine mem_seq.mpr ⟨(c.past 1,[]),?_,way,mem_one.mpr ⟨newline,none⟩,by simp⟩
      rw [ways_maybe]
      exact List.mem_append_left _ (mem_one.mpr ⟨return_,rfl⟩)

theorem mem_gaps : way ∈ gaps.ways c ↔ ∃ t, c.Reads t way.1 ∧ Gaps t ∧ way.2 = [] :=
  mem_many

theorem leads_gaps {P : Text → Prop} : gaps.Leads P c ↔ ∃ g u, c.after = g ++ u ∧ Gaps g ∧ P u := by
  constructor
  · rintro ⟨way,found,holds⟩
    obtain ⟨g,read,blank,_⟩ := mem_gaps.mp found
    exact ⟨g,_,read.1,blank,holds⟩
  · rintro ⟨g,u,begins,blank,holds⟩
    refine ⟨(c.past g.length,[]),mem_gaps.mpr ⟨g,.of_after begins,blank,rfl⟩,?_⟩
    simpa [begins] using holds

theorem leads_break {P : Text → Prop} : lineBreak.Leads P c ↔ ∃ b u, c.after = b ++ u ∧ Break b ∧ P u := by
  constructor
  · rintro ⟨way,found,holds⟩
    obtain ⟨b,read,isBreak,_⟩ := mem_break.mp found
    exact ⟨b,_,read.1,isBreak,holds⟩
  · rintro ⟨b,u,begins,isBreak,holds⟩
    refine ⟨(c.past b.length,[]),mem_break.mpr ⟨b,.of_after begins,isBreak,rfl⟩,?_⟩
    simpa [begins] using holds

theorem leads_textEnd {P : Text → Prop} : Pattern.textEnd.Leads P c ↔ c.after = [] ∧ P [] := by
  simp only [Leads,ways,mem_waysIf,List.isEmpty_iff]
  constructor
  · rintro ⟨_,⟨ended,rfl⟩,holds⟩
    exact ⟨ended,ended ▸ holds⟩
  · rintro ⟨ended,holds⟩
    exact ⟨_,⟨ended,rfl⟩,ended ▸ holds⟩

theorem leads_one {x : Char} {P : Text → Prop} :
    (Pattern.char (.one x)).Leads P c ↔ ∃ u, c.after = x :: u ∧ P u := by
  constructor
  · rintro ⟨way,found,holds⟩
    exact ⟨_,(mem_one.mp found).1.1,holds⟩
  · rintro ⟨u,begins,holds⟩
    refine ⟨(c.past 1,[]),mem_one.mpr ⟨.of_after begins,rfl⟩,?_⟩
    simpa [begins] using holds

-- It is only looked at, so a block stops before it.
theorem mem_blockEnd : way ∈ blockEnd.ways c ↔ Ends c.after ∧ way = (c,[]) := by
  have stops : ∀ c, (lineBreak <|> Pattern.textEnd).Leads (fun _ => True) c ↔ Stops c.after := by
    intro c
    rw [leads_choice,leads_break,leads_textEnd]
    simp [Stops,or_comm]
  have blank : ∀ c, gaps.Leads Stops c ↔ ∃ g v, c.after = g ++ v ∧ Gaps g ∧ Stops v := fun c => leads_gaps
  have hash : ∀ c, (Inline.char '#').Leads (fun _ => True) c ↔ c.after.head? = some '#' := by
    intro c
    rw [Inline.char,leads_one]
    cases c.after <;> simp
  have closes : ∀ c, (lineBreak ++ gaps ++ (lineBreak <|> Pattern.textEnd) <|> lineBreak ++ Inline.char '#' <|>
      Pattern.textEnd).Leads (fun _ => True) c ↔ Closes c.after := by
    intro c
    rw [leads_choice,leads_choice,leads_seq stops,leads_seq (Q := fun u => ∃ g v, u = g ++ v ∧ Gaps g ∧ Stops v) blank,
      leads_seq (Q := fun u => u.head? = some '#') hash,leads_break,leads_break,leads_textEnd]
    constructor
    · rintro (⟨b,u,begins,isBreak,blank⟩ | ⟨b,u,begins,isBreak,hash⟩ | ⟨ended,_⟩)
      · exact Or.inr ⟨b,u,begins,isBreak,Or.inr blank⟩
      · exact Or.inr ⟨b,u,begins,isBreak,Or.inl hash⟩
      · exact Or.inl ended
    · rintro (ended | ⟨b,u,begins,isBreak,hash | blank⟩)
      · exact Or.inr (Or.inr ⟨ended,trivial⟩)
      · exact Or.inr (Or.inl ⟨b,u,begins,isBreak,hash⟩)
      · exact Or.inl ⟨b,u,begins,isBreak,blank⟩
  rw [blockEnd,mem_ahead rfl,leads_seq closes,leads_gaps]
  rfl

theorem ways_blockEnd (ends : Ends c.after) : blockEnd.ways c = [(c,[])] := by
  have member := mem_blockEnd.mpr ⟨ends,rfl⟩
  unfold blockEnd at member ⊢
  rw [ways] at member ⊢
  cases found : Pattern.ways _ c with
  | nil =>
    rw [found] at member
    cases member
  | cons way others =>
    rw [found] at member
    exact congrArg ([·]) (List.mem_singleton.mp member).symm

theorem ways_blockEnd_none (open_ : ¬ Ends c.after) : blockEnd.ways c = [] :=
  List.eq_nil_iff_forall_not_mem.mpr fun _ found => open_ (mem_blockEnd.mp found).1

end Block
end LightMarkup
