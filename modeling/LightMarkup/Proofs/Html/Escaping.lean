import Mathlib.Data.List.Basic
import LightMarkup.Html
import LightMarkup.Pattern.CharSet

/-!
Escaped text, character by character. An angle bracket becomes an entity: an ampersand, a word and a semicolon. Every
other character stays as it is.
-/

namespace LightMarkup
namespace Html

variable {c x : Char} {t : Text}

def brackets : List Char :=
  ['<','>']

theorem escape_append (t u : Text) : escape (t ++ u) = escape t ++ escape u :=
  List.flatMap_append

theorem escape_single (c : Char) : escape [c] = escapeChar c :=
  List.append_nil _

theorem escapeChar_bracket (angled : x ∈ brackets) :
    ∃ word, escapeChar x = '&' :: (word ++ [';']) ∧ ∀ c ∈ word, CharSet.wordOrHyphen.contains c = true := by
  simp only [brackets,List.mem_cons,List.not_mem_nil,or_false] at angled
  rcases angled with rfl | rfl
  · exact ⟨['l','t'],by rw [escapeChar,if_pos rfl,Text.ofString_ofList]; rfl,List.all_eq_true.mp (by decide)⟩
  · refine ⟨['g','t'],?_,List.all_eq_true.mp (by decide)⟩
    rw [escapeChar,if_neg (by decide),if_pos rfl,Text.ofString_ofList]
    rfl

theorem escapeChar_other (other : x ∉ brackets) : escapeChar x = [x] := by
  simp only [brackets,List.mem_cons,List.not_mem_nil,or_false,not_or] at other
  rw [escapeChar,if_neg other.1,if_neg other.2]

theorem escape_plain (plain : ∀ c ∈ t, c ∉ brackets) : escape t = t := by
  rw [escape,List.flatMap_congr fun c member => escapeChar_other (plain c member),List.flatMap_singleton']

theorem escape_nil_iff : escape t = [] ↔ t = [] := by
  constructor
  · intro none
    refine List.eq_nil_iff_forall_not_mem.mpr fun x member => ?_
    have empty : escapeChar x = [] := List.flatMap_eq_nil_iff.mp none x member
    by_cases angled : x ∈ brackets
    · obtain ⟨word,entity,_⟩ := escapeChar_bracket angled
      exact absurd (entity.symm.trans empty) (List.cons_ne_nil _ _)
    · exact absurd ((escapeChar_other angled).symm.trans empty) (List.cons_ne_nil _ _)
  · rintro rfl
    rfl

-- What an escaped text holds it has from the text or from an entity.
theorem mem_escape (member : x ∈ escape t) : x ∈ t ∨ x ∈ ['&',';'] ∨ CharSet.wordOrHyphen.contains x = true := by
  obtain ⟨c,isChar,inside⟩ := List.mem_flatMap.mp member
  by_cases angled : c ∈ brackets
  · obtain ⟨word,entity,all⟩ := escapeChar_bracket angled
    rw [entity,List.mem_cons,List.mem_append,List.mem_singleton] at inside
    rcases inside with rfl | inside | rfl
    · exact .inr (.inl (by decide))
    · exact .inr (.inr (all x inside))
    · exact .inr (.inl (by decide))
  · rw [escapeChar_other angled] at inside
    exact .inl (List.mem_singleton.mp inside ▸ isChar)

-- No entity has the character.
theorem escape_free {x : Char} (free : x ∉ t) (mark : x ∉ ['&',';']) (apart : CharSet.wordOrHyphen.contains x = false) :
    x ∉ escape t := by
  intro member
  rcases mem_escape member with inside | entity | word
  · exact free inside
  · exact mark entity
  · rw [apart] at word
    cases word

theorem escapeAttribute_plain (plain : ∀ c ∈ t, c ∉ '&' :: '"' :: brackets) : escapeAttribute t = t := by
  induction t with
  | nil => rfl
  | cons c t ih =>
    obtain ⟨here,later⟩ := List.forall_mem_cons.mp plain
    simp only [List.mem_cons,not_or] at here
    rw [escapeAttribute,ih later]
    simp [here,escapeAttributeChar,escapeChar_other here.2.2]

end Html
end LightMarkup
