import LightMarkup.Construct.Block
import LightMarkup.Proofs.Blanks.Carrying
import LightMarkup.Proofs.Pattern.Preferring

/-!
A paragraph with an identifier and a style. Behind its label a blank line may stand before the style, but only an empty
one, which is why a gap that is all of such a line is left out of account.
-/

namespace LightMarkup
namespace Block

open Cursor (Aligned)
open Pattern
open Inline (char anything identifierAt styleAt)

variable {α : Type} {C : Captures → Captures → Prop} {R : α → α → Prop} {rest rest' : Rest α}
  {c c' : Cursor} {g g' : Captures}

-- What stands behind the label and the end of its line.
def styleBehind : Pattern :=
  maybe (identifierAt 2) ++ (optionalReturn ++ (maybe (char '\n') ++ (styleAt 3 ++ blockEnd)))

def labelClosed : Pattern :=
  literal [']',']'] ++ (optionalReturn ++ (maybe (char '\n') ++ styleBehind))

theorem followed_literal_none {t : Text} (other : ¬ t <+: c.after) (g : Captures) : (literal t).followed rest c g = none := by
  rw [followed,ways_literal_none other]
  rfl

-- At the end of a line it finds a style on the next line or nothing.
theorem styleBehind_none (breaks : Text.Breaks c.after) (unstyled : ¬ Text.Styled c.after) (g : Captures) :
    styleBehind.followed rest c g = none := by
  have begins : ∀ {x : Char} {t : Text}, c.after = x :: t → x = '\n' := fun same => breaks _ (by rw [same]; rfl)
  have never : ∀ {rest : Rest α} {x : Char} {t : Text}, x ≠ '\n' → (literal (x :: t)).followed rest c g = none := by
    intro rest x t other
    refine followed_literal_none ?_ g
    rintro ⟨u,same⟩
    exact other (begins same.symm)
  have hash : ∀ {rest : Rest α}, (identifierAt 2).followed rest c g = none := by
    intro rest
    rw [identifierAt,followed_seq,Text.ofString_ofList]
    exact never (by decide)
  have return_ : ∀ {rest : Rest α}, (char '\r').followed rest c g = none := never (t := []) (by decide)
  have style : ∀ {rest : Rest α}, (styleAt 3).followed rest c g = none := by
    intro rest
    rw [styleAt,followed_seq,followed_seq,Text.ofString_ofList]
    exact never (by decide)
  have newline : ∀ {rest : Rest α}, (char '\n').followed ((styleAt 3).followed rest) c g = none := by
    intro rest
    cases after : c.after with
    | nil => exact followed_nil _ _ after g
    | cons x t =>
      rw [Inline.char,followed_cons _ _ after,styleAt,followed_seq,followed_seq,Text.ofString_ofList]
      split
      · refine followed_literal_none ?_ g
        rintro ⟨u,same⟩
        refine unstyled ⟨u,?_⟩
        rw [after,begins after]
        simpa [after] using same.symm
      · rfl
  simp only [styleBehind,optionalReturn,followed_seq,followed_maybe,hash,return_,newline,style,Option.or_none]

-- The end of the line of a label.
theorem newline_meets (known : Tallies C R rest rest' .late)
    (unstyled : ∀ {c} (g), Text.Breaks c.after → ¬ Text.Styled c.after → rest' c g = none) (aligned : Aligned c c')
    (off : ¬ c.OnBlank) (label : Text.Labelled c.before) (captures : C g g') :
    Option.Rel R ((maybe (char '\n')).followed rest c g) ((maybe (char '\n')).followed rest' c' g') := by
  have here := known.meets aligned (fun blank => off blank.1) captures
  rw [followed_maybe,followed_maybe]
  refine rel_or (meets_char aligned (fun blank => off blank.1) fun {x t} begins inSet next => ?_) here
  obtain rfl : x = '\n' := by simpa [CharSet.contains] using inSet
  by_cases gap : (c.past 1).OnBlank ∧ (c.past 1).BeforeGap
  · rw [known.bars g gap]
    cases next.step with
    | ended none =>
      obtain ⟨_,_,first,_⟩ := gap
      rw [none] at first
      cases first
    | inner begins begins' =>
      have gap' : (c'.past 1).OnBlank ∧ (c'.past 1).BeforeGap := by
        refine ⟨next.onBlank.mp gap.1,?_⟩
        obtain ⟨_,y,first,isGap⟩ := gap
        rw [begins] at first
        cases first
        exact ⟨_,by rw [begins']; rfl,isGap⟩
      rw [known.bars' g' gap']
      exact .none
    | extra _ site =>
      have before : (c.past 1).before = '\n' :: c.before := by simp [Cursor.past,begins]
      rw [unstyled g' site.breaks (site.apart c.before before label)]
      exact .none
  · exact known.meets next gap captures

theorem styleBehind_carries : Carries [] styleBehind .plain .late := by
  have known : styleBehind.carry [] .plain = some .late := by
    unfold styleBehind identifierAt styleAt
    repeat rw [Text.ofString_ofList]
    decide +kernel
  exact carry_carries known

theorem followed_labelClosed (rest : Rest α) : labelClosed.followed rest = (char ']').followed ((char ']').followed fun c g =>
    ((char '\r').followed ((maybe (char '\n')).followed (styleBehind.followed rest)) c g).or
      ((maybe (char '\n')).followed (styleBehind.followed rest) c g)) := by
  have two : literal [']',']'] = char ']' ++ char ']' := rfl
  simp only [labelClosed,two,optionalReturn,followed_seq,followed_maybe]

theorem labelClosed_carries : Carries [] labelClosed .plain .solid where
  bars rest _ c g barred := by
    rw [followed_labelClosed]
    have solid : Carries [] (char ']') .away .solid := carries_solid rfl rfl
    exact solid.bars _ (fun _ _ away => away.elim) g barred
  meets {α C R rest rest'} extend known c c' g g' aligned off captures := by
    have late := styleBehind_carries.tallies extend known
    have unstyled : ∀ {c : Cursor} (g : Captures), Text.Breaks c.after → ¬ Text.Styled c.after →
        styleBehind.followed rest' c g = none := fun g breaks other => styleBehind_none breaks other g
    have one : ∀ {x y : Char}, (CharSet.one x).contains y = true → y = x := fun inSet => by
      simpa [CharSet.contains] using inSet
    have step : ∀ {c : Cursor} {x : Char} {t : Text}, c.after = x :: t → (c.past 1).before = x :: c.before := fun begins => by
      simp [Cursor.past,begins]
    rw [followed_labelClosed,followed_labelClosed]
    refine meets_char aligned (fun blank => off blank.1) fun first isFirst aligned => ?_
    replace off := fun blank => off ((off_past rfl first isFirst).mp blank)
    refine meets_char aligned (fun blank => off blank.1) fun second isSecond aligned => ?_
    replace off := fun blank => off ((off_past rfl second isSecond).mp blank)
    have before := step second
    rw [step first,one isFirst,one isSecond] at before
    refine rel_or (meets_char aligned (fun blank => off blank.1) fun third isThird aligned => ?_)
      (newline_meets late unstyled aligned off ⟨_,Or.inl before⟩ captures)
    replace off := fun blank => off ((off_past rfl third isThird).mp blank)
    have behind := step third
    rw [before,one isThird] at behind
    exact newline_meets late unstyled aligned off ⟨_,Or.inr behind⟩ captures

theorem styledWithId_carries : Carries [] styledWithId.pattern .plain .solid := by
  have front : (literal "[[" ++ captured 1 (lazyMany anything)).carry [] .solid = some .solid := by
    rw [Text.ofString_ofList]
    decide
  refine (carries_seq (carry_carries front) labelClosed_carries).of_followed fun rest => ?_
  simp only [styledWithId,block,labelClosed,styleBehind,followed_seq]
  repeat rw [Text.ofString_ofList]

end Block
end LightMarkup
