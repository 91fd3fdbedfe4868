import Mathlib.Data.List.Basic
import Mathlib.Data.List.TakeWhile
import LightMarkup.Proofs.Loading.Opening

/-!
Texts cut out of a text: where a block may start or end in the excerpt, and where it may in the whole.
-/

namespace LightMarkup
namespace Block

-- Whether a block may start behind the text.
def startsBehind (t : Text) : Bool :=
  (⟨t.reverse,[]⟩ : Cursor).isBlockStart

-- The last line of a text.
def lastLine (t : Text) : Text :=
  (t.reverse.takeWhile (· != '\n')).reverse

-- A block may start behind a line that is blank or is one of a heading or a tag.
def Allows (line : Text) : Prop :=
  ∀ x ∈ (Text.trim line).head?, x = '#' ∨ x = '@'

variable {t u x q line : Text}

theorem last_newline (t : Text) : '\n' ∉ t ∨ ∃ x q, t = x ++ '\n' :: q ∧ '\n' ∉ q := by
  by_cases member : '\n' ∈ t
  · obtain ⟨q,x,whole,free⟩ := List.eq_append_cons_of_mem (List.mem_reverse.mpr member)
    refine Or.inr ⟨x.reverse,q.reverse,?_,fun member => free (List.mem_reverse.mp member)⟩
    rw [← List.reverse_reverse t,whole]
    simp
  · exact Or.inl member

theorem lastLine_free (free : '\n' ∉ t) : lastLine t = t := by
  have all : ∀ x ∈ t.reverse, (x != '\n') = true := fun x member => bne_iff_ne.mpr fun same =>
    free (same ▸ List.mem_reverse.mp member)
  rw [lastLine,List.takeWhile_eq_self_iff.mpr all,List.reverse_reverse]

theorem takeWhile_line (free : '\n' ∉ q) (x : Text) : (x ++ '\n' :: q).reverse.takeWhile (· != '\n') = q.reverse := by
  have all : ∀ x ∈ q.reverse, (x != '\n') = true := fun x member => bne_iff_ne.mpr fun same =>
    free (same ▸ List.mem_reverse.mp member)
  rw [List.reverse_append,List.reverse_cons,List.append_assoc,List.takeWhile_append_of_pos all]
  simp

theorem lastLine_break (free : '\n' ∉ q) (x : Text) : lastLine (x ++ '\n' :: q) = q := by
  rw [lastLine,takeWhile_line free,List.reverse_reverse]

theorem lastLine_append (inside : '\n' ∈ t) (u : Text) : lastLine (u ++ t) = lastLine t := by
  rcases last_newline t with free | ⟨x,q,rfl,free⟩
  · exact absurd inside free
  · rw [← List.append_assoc,lastLine_break free,lastLine_break free]

theorem blank_reverse (t : Text) : Text.isAllBlank t.reverse = Text.isAllBlank t := by
  simp [Text.isAllBlank]

theorem starts_first (free : '\n' ∉ t) : startsBehind t = true ↔ Text.isAllBlank t = true := by
  have all : t.reverse.takeWhile (· != '\n') = t.reverse := by
    have same := lastLine_free free
    rwa [lastLine,List.reverse_eq_iff] at same
  have none : t.reverse.drop t.reverse.length = [] := List.drop_length
  simp only [startsBehind,Cursor.isBlockStart,all,none,blank_reverse,Bool.and_true]

theorem starts_line (free : '\n' ∉ q) : startsBehind (x ++ '\n' :: q) = true ↔ Text.isAllBlank q = true ∧ Allows (lastLine x) := by
  have behind : (x ++ '\n' :: q).reverse.drop q.reverse.length = '\n' :: x.reverse := by simp
  simp only [startsBehind,Cursor.isBlockStart,takeWhile_line free,blank_reverse,behind,Bool.and_eq_true]
  refine and_congr_right fun _ => ?_
  rw [Allows,lastLine]
  cases Text.trim (x.reverse.takeWhile (· != '\n')).reverse with
  | nil => simp
  | cons y rest => simp

theorem allows_blank (blank : Text.isAllBlank line = true) : Allows line := by
  have none : Text.trimStart line = [] := List.dropWhile_eq_nil_iff.mpr (List.all_eq_true.mp blank)
  have trimmed : Text.trim line = [] := by rw [Text.trim,none]; rfl
  rw [Allows,trimmed]
  intro _ none
  cases none

-- What stands before is not seen behind two newlines.
theorem starts_whole (starts : startsBehind (x ++ '\n' :: q) = true) (free : '\n' ∉ q) (inside : '\n' ∈ x) (u : Text) :
    startsBehind (u ++ (x ++ '\n' :: q)) = true := by
  rw [← List.append_assoc]
  rw [starts_line free] at starts ⊢
  rwa [lastLine_append inside]

-- There is one first line.
theorem first_line {y v : Text} (free : '\n' ∉ x) (single : '\n' ∉ y) (same : x ++ '\n' :: q = y ++ '\n' :: v) :
    x = y ∧ q = v := by
  induction x generalizing y with
  | nil =>
    cases y with
    | nil => exact ⟨rfl,(List.cons.inj same).2⟩
    | cons z y =>
      obtain ⟨rfl,_⟩ := List.cons.inj same
      exact absurd (List.mem_cons_self ..) single
  | cons z x ih =>
    cases y with
    | nil =>
      obtain ⟨rfl,_⟩ := List.cons.inj same
      exact absurd (List.mem_cons_self ..) free
    | cons w y =>
      obtain ⟨rfl,rest⟩ := List.cons.inj same
      obtain ⟨rfl,rfl⟩ := ih (fun member => free (List.mem_cons_of_mem _ member))
        (fun member => single (List.mem_cons_of_mem _ member)) rest
      exact ⟨rfl,rfl⟩

-- Where a block may end, nothing but gaps is left on the line.
theorem ends_line (ends : Ends (x ++ '\n' :: q)) (free : '\n' ∉ x) : ∃ g b, x ++ ['\n'] = g ++ b ∧ Gaps g ∧ Break b ∧
    (q.head? = some '#' ∨ ∃ h v, q = h ++ v ∧ Gaps h ∧ Stops v) := by
  obtain ⟨g,u,whole,gaps,closes⟩ := ends
  have newline : '\n' ∈ g ++ u := whole ▸ List.mem_append_right _ (List.mem_cons_self ..)
  rcases closes with rfl | ⟨b,v,rfl,isBreak,after⟩
  · rw [List.append_nil] at newline
    exact absurd newline gaps.single
  · have cut : ∃ r, b = r ++ ['\n'] ∧ '\n' ∉ r := by
      rcases isBreak with rfl | rfl
      · exact ⟨[],rfl,List.not_mem_nil⟩
      · exact ⟨['\r'],rfl,by decide⟩
    obtain ⟨r,rfl,single⟩ := cut
    have same : x ++ '\n' :: q = (g ++ r) ++ '\n' :: v := by rw [whole]; simp
    obtain ⟨rfl,rfl⟩ := first_line free (fun member => (List.mem_append.mp member).elim gaps.single single) same
    exact ⟨g,r ++ ['\n'],List.append_assoc _ _ _,gaps,isBreak,after⟩

theorem ends_blank (ends : Ends (x ++ '\n' :: q)) (free : '\n' ∉ x) : Text.isAllBlank x = true := by
  obtain ⟨g,b,whole,gaps,isBreak,_⟩ := ends_line ends free
  refine List.all_eq_true.mpr fun y member => ?_
  have inside : y ∈ g ++ b := whole ▸ List.mem_append_left _ member
  exact (List.mem_append.mp inside).elim (gaps.blank y) (isBreak.blank y)

-- A break is not cut before its newline.
theorem break_take {b v : Text} (isBreak : Break b) (whole : t ++ u = b ++ v) (other : u.head? ≠ some '\n') :
    t = [] ∨ ∃ s, t = b ++ s ∧ s ++ u = v := by
  rcases isBreak with rfl | rfl
  · cases t with
    | nil => exact Or.inl rfl
    | cons y t =>
      obtain ⟨rfl,rest⟩ := List.cons.inj whole
      exact Or.inr ⟨t,rfl,rest⟩
  · rcases t with _ | ⟨y,_ | ⟨z,t⟩⟩
    · exact Or.inl rfl
    · have next : u = '\n' :: v := (List.cons.inj whole).2
      exact absurd (by rw [next]; rfl) other
    · obtain ⟨rfl,second⟩ := List.cons.inj whole
      obtain ⟨rfl,rest⟩ := List.cons.inj second
      exact Or.inr ⟨t,rfl,rest⟩

theorem gaps_take {g v : Text} (gaps : Gaps g) (whole : t ++ u = g ++ v) : Gaps t ∨ ∃ s, t = g ++ s ∧ s ++ u = v := by
  rcases List.append_eq_append_iff.mp whole with ⟨more,rfl,_⟩ | ⟨more,front,back⟩
  · exact Or.inl fun x member => gaps x (List.mem_append_left _ member)
  · exact Or.inr ⟨more,front,back.symm⟩

theorem stops_take (stops : Stops (t ++ u)) (other : u.head? ≠ some '\n') : Stops t := by
  rcases stops with none | ⟨b,v,whole,isBreak⟩
  · exact Or.inl (List.append_eq_nil_iff.mp none).1
  · rcases break_take isBreak whole other with none | ⟨s,rfl,_⟩
    · exact Or.inl none
    · exact Or.inr ⟨b,s,rfl,isBreak⟩

-- Where a block may end in a text, it may end in what is left of it when the text is cut, only not before a newline.
theorem ends_take (ends : Ends (t ++ u)) (other : u.head? ≠ some '\n') : Ends t := by
  obtain ⟨g,v,whole,gaps,closes⟩ := ends
  rcases gaps_take gaps whole with short | ⟨s,rfl,rfl⟩
  · exact ⟨t,[],(List.append_nil t).symm,short,Or.inl rfl⟩
  refine ⟨g,s,rfl,gaps,?_⟩
  rcases closes with none | ⟨b,w,broken,isBreak,after⟩
  · exact Or.inl (List.append_eq_nil_iff.mp none).1
  rcases break_take isBreak broken other with none | ⟨r,rfl,rfl⟩
  · exact Or.inl none
  refine Or.inr ⟨b,r,rfl,isBreak,?_⟩
  have blank : Gaps r → ∃ h v, r = h ++ v ∧ Gaps h ∧ Stops v := fun gaps => ⟨r,[],(List.append_nil r).symm,gaps,Or.inl rfl⟩
  rcases after with hash | ⟨h,w,next,others,stops⟩
  · cases r with
    | nil => exact Or.inr (blank (List.forall_mem_nil _))
    | cons y r => exact Or.inl hash
  · rcases gaps_take others next with short | ⟨e,rfl,rfl⟩
    · exact Or.inr (blank short)
    · exact Or.inr ⟨h,e,rfl,others,stops_take stops other⟩

-- At most one line break, and nothing else but gaps.
def Near (t : Text) : Prop :=
  ∃ g u, t = g ++ u ∧ Gaps g ∧ (u = [] ∨ ∃ b h, u = b ++ h ∧ Break b ∧ Gaps h)

-- Where a block may end in a text, it may end in a longer one, unless the text itself is what it ends before.
theorem ends_whole (ends : Ends t) (u : Text) : Ends (t ++ u) ∨ Near t := by
  obtain ⟨g,v,rfl,gaps,closes⟩ := ends
  rcases closes with rfl | ⟨b,w,rfl,isBreak,after⟩
  · exact Or.inr ⟨g,[],rfl,gaps,Or.inl rfl⟩
  · have closed : w.head? = some '#' ∨ (∃ h v, w = h ++ v ∧ Gaps h ∧ ∃ b v', v = b ++ v' ∧ Break b) → Ends (g ++ (b ++ w) ++ u) := by
      intro closed
      refine ⟨g,b ++ (w ++ u),by simp,gaps,Or.inr ⟨b,w ++ u,rfl,isBreak,?_⟩⟩
      rcases closed with hash | ⟨h,v,rfl,others,e,z,rfl,again⟩
      · exact Or.inl (by rw [List.head?_append,hash]; rfl)
      · exact Or.inr ⟨h,e ++ (z ++ u),by simp,others,Or.inr ⟨e,z ++ u,rfl,again⟩⟩
    rcases after with hash | ⟨h,v,rfl,others,rfl | stops⟩
    · exact Or.inl (closed (Or.inl hash))
    · exact Or.inr ⟨g,_,rfl,gaps,Or.inr ⟨b,h,by rw [List.append_nil],isBreak,others⟩⟩
    · exact Or.inl (closed (Or.inr ⟨h,v,rfl,others,stops⟩))

-- Where a block may start in a text, it may start in what is left of it when the text is cut where a block ends.
theorem starts_drop (starts : startsBehind (u ++ t) = true) (ends : Ends t) : startsBehind t = true := by
  have blank : ∀ {w}, '\n' ∉ t → Text.isAllBlank (w ++ t) = true → startsBehind t = true := by
    intro w free all
    rw [Text.isAllBlank,List.all_append,Bool.and_eq_true] at all
    exact (starts_first free).mpr all.2
  rcases last_newline t with free | ⟨x,q,rfl,free⟩
  · rcases last_newline u with alone | ⟨x,q,rfl,single⟩
    · exact blank free ((starts_first fun member => (List.mem_append.mp member).elim alone free).mp starts)
    · rw [List.append_assoc,List.cons_append,starts_line fun member => (List.mem_append.mp member).elim single free] at starts
      exact blank free starts.1
  · rw [← List.append_assoc,starts_line free] at starts
    rw [starts_line free]
    refine ⟨starts.1,?_⟩
    by_cases inside : '\n' ∈ x
    · rw [← lastLine_append inside u]
      exact starts.2
    · rw [lastLine_free inside]
      exact allows_blank (ends_blank ends inside)

section

variable {w : Text} {y : Char} (solid : Text.isBlank y = false)
include solid

theorem stops_solid (stops : Stops (w ++ [y] ++ u)) : '\n' ∈ w := by
  rcases stops with none | ⟨b,v,whole,isBreak⟩
  · simp at none
  · obtain ⟨rest,rfl,_⟩ := blank_front solid isBreak.blank whole
    rcases isBreak with rfl | rfl <;> simp

-- What is not blank does not follow where a block may end, on the same line.
theorem ends_solid (ends : Ends (w ++ [y] ++ u)) : '\n' ∈ w := by
  obtain ⟨g,v,whole,gaps,closes⟩ := ends
  obtain ⟨rest,rfl,rfl⟩ := blank_front solid gaps.blank whole
  have stops : Stops (rest ++ [y] ++ u) := closes.imp_right fun ⟨b,v,whole,isBreak,_⟩ => ⟨b,v,whole,isBreak⟩
  exact List.mem_append_right _ (stops_solid solid stops)

variable {g : Text} (gaps : Gaps g)
include gaps

theorem opening_head : (g ++ y :: u).head? ≠ some '\n' := by
  cases g with
  | nil =>
    intro same
    obtain rfl : y = '\n' := Option.some.inj same
    exact absurd solid (by decide)
  | cons z g =>
    intro same
    obtain rfl : z = '\n' := Option.some.inj same
    exact gaps.single (List.mem_cons_self ..)

theorem opening_newline (ends : Ends (t ++ (g ++ y :: u))) : '\n' ∈ t := by
  have whole : t ++ (g ++ y :: u) = (t ++ g) ++ [y] ++ u := by simp
  rw [whole] at ends
  exact (List.mem_append.mp (ends_solid solid ends)).resolve_right gaps.single

-- What opens a block behind where a block may end, opens it in the whole text or on the next line with a hash.
theorem opening_whole (starts : startsBehind t = true) (ends : Ends (t ++ (g ++ y :: u))) (before : Text) :
    startsBehind (before ++ t) = true ∨ (∃ h b, t = h ++ b ∧ Gaps h ∧ Break b) ∧ y = '#' := by
  rcases last_newline t with free | ⟨x,q,rfl,free⟩
  · exact absurd (opening_newline solid gaps ends) free
  by_cases inside : '\n' ∈ x
  · exact Or.inl (starts_whole starts free inside before)
  have blank : ∀ z ∈ q ++ g, Text.isBlank z = true := fun z member => (List.mem_append.mp member).elim
    (List.all_eq_true.mp ((starts_line free).mp starts).1 z) (gaps.blank z)
  have single : '\n' ∉ q ++ g := fun member => (List.mem_append.mp member).elim free gaps.single
  rw [List.append_assoc,List.cons_append,← List.append_assoc] at ends
  obtain ⟨h,b,line,isGaps,isBreak,hash | ⟨e,v,whole,others,stops⟩⟩ := ends_line ends inside
  · refine Or.inr ?_
    cases behind : q ++ g with
    | nil =>
      rw [behind] at hash
      obtain ⟨rfl,_⟩ := List.append_eq_nil_iff.mp behind
      exact ⟨⟨h,b,line,isGaps,isBreak⟩,Option.some.inj hash⟩
    | cons z rest =>
      rw [behind] at hash blank
      obtain rfl : z = '#' := Option.some.inj hash
      exact absurd (blank _ (List.mem_cons_self ..)) (by decide)
  · have cut : (q ++ g) ++ [y] ++ u = e ++ v := by simpa using whole
    obtain ⟨rest,front,rfl⟩ := blank_front solid others.blank cut
    exact absurd (front ▸ List.mem_append_right _ (stops_solid solid stops)) single

-- Behind a block that does not stand on the first line.
theorem behind_whole (inside : '\n' ∈ t) (starts : startsBehind (t ++ (g ++ y :: u)) = true) (before : Text) :
    startsBehind (before ++ (t ++ (g ++ y :: u))) = true := by
  rcases last_newline u with free | ⟨x,q,rfl,free⟩
  · rcases last_newline t with none | ⟨x,q,rfl,single⟩
    · exact absurd inside none
    have line : '\n' ∉ q ++ (g ++ y :: u) := by
      have other : '\n' ≠ y := fun same => absurd solid (by rw [← same]; decide)
      simp [single,gaps.single,free,other]
    rw [List.append_assoc,List.cons_append,starts_line line] at starts
    have blank := List.all_eq_true.mp starts.1 y (by simp)
    rw [solid] at blank
    cases blank
  · have cut : t ++ (g ++ y :: (x ++ '\n' :: q)) = (t ++ (g ++ y :: x)) ++ '\n' :: q := by simp
    rw [cut] at starts ⊢
    exact starts_whole starts free (List.mem_append_left _ inside) before

end

end Block
end LightMarkup
