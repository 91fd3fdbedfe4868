import LightMarkup.Construct.Inline
import LightMarkup.Proofs.Draft.Splicing
import LightMarkup.Proofs.Pattern.Isolating

/-!
A match of an inline construct is handed over as a text of its own, in which the construct looks for it once more. It
finds the same match there, because a construct that looks beyond the ends of its match sees nothing else at the ends of
that text.
-/

namespace LightMarkup
namespace Pattern

variable {p : Pattern} {c : Cursor} {m : Match} {mark : Text}

theorem literal_looks (allowed : List Pattern) (t : Text) : (literal t).looksOnly allowed = true := by
  induction t with
  | nil => rfl
  | cons x rest ih =>
    cases rest with
    | nil => rfl
    | cons y rest => simpa [literal,looksOnly] using ih

-- Next to a word there is no match.
theorem apart_way (isWay : m.IsWay (Inline.betweenApart mark)) : (∀ x ∈ m.start.before.head?, CharSet.word.contains x = false) ∧
    (∃ inner, m.start.Reads (mark ++ inner ++ mark) m.stop) ∧ ∀ x ∈ m.stop.after.head?, CharSet.word.contains x = false := by
  obtain ⟨mid,_,_,front,last,_⟩ := seq_parts isWay
  obtain ⟨start,_,_,first,body,_⟩ := seq_parts front
  obtain ⟨before,same⟩ := mem_waysIf.mp first
  obtain ⟨behind,ended⟩ := mem_waysIf.mp last
  obtain rfl : start = m.start := congrArg Prod.fst same
  obtain rfl : m.stop = mid := congrArg Prod.fst ended
  refine ⟨fun x member => ?_,?_,fun x member => ?_⟩
  · obtain ⟨others,split⟩ := List.head?_eq_some_iff.mp member
    rw [split] at before
    simpa using before
  · obtain ⟨inside,_,_,opened,closed,_⟩ := seq_parts body
    obtain ⟨opening,_,_,begun,text,_⟩ := seq_parts opened
    obtain ⟨inner,read⟩ := ways_reads text
    exact ⟨inner,((literal_reads begun).1.append read).append (literal_reads closed).1⟩
  · obtain ⟨others,split⟩ := List.head?_eq_some_iff.mp member
    rw [ways_char_cons split] at behind
    cases known : CharSet.word.contains x with
    | false => rfl
    | true => simp [waysIf,known] at behind

-- So nothing next to the match is a word.
theorem apart_again (found : (Inline.betweenApart mark).matchAt? c = some m) : (Inline.betweenApart mark).Again m := by
  obtain ⟨_,isWay⟩ := matchAt_way found
  obtain ⟨apartBefore,_,apartBehind⟩ := apart_way isWay
  have looks : (Inline.betweenApart mark).looksOnly [.notBehind .word,.notAhead (.char .word)] = true := by
    simp [Inline.betweenApart,Inline.between,append_eq,looksOnly,literal_looks,captured,lazyMany,Inline.onLine,needs]
  refine own_again found (looksOnly_own ?_ looks _)
  exact List.forall_mem_cons.mpr ⟨own_notBehind apartBefore,List.forall_mem_singleton.mpr (own_notAhead apartBehind)⟩

theorem matchSomeAt_needed (needed : p.needs (fun _ => true) = true) (c : Cursor) : p.matchSomeAt? c = p.matchAt? c := by
  cases found : p.matchAt? c with
  | none =>
    rw [matchSomeAt_none,matchAt_none found]
    exact List.forall_mem_nil _
  | some m =>
    obtain ⟨rfl,isWay⟩ := matchAt_way found
    have less : m.stop.after.length < m.start.after.length := needs_eats needed _ _ isWay
    obtain ⟨inner,read⟩ := isWay.reads
    refine matchSomeAt_some found ?_
    have length := read.length
    rw [Match.length,read.position]
    omega

end Pattern

namespace Inline

open Pattern

variable {construct : Construct} {c : Cursor} {m : Match}

-- All but three constructs look at nothing around their match.
theorem standard_looking :
    standard.filter (fun construct => !construct.pattern.looksOnly []) = [comment,boldByUnderscores,italicByUnderscores] := by
  decide +kernel

-- At the beginning of a text nothing is cut off before the match.
theorem comment_again (found : comment.pattern.matchAt? c = some m) : comment.pattern.Again m := by
  obtain ⟨_,isWay⟩ := matchAt_way found
  obtain ⟨mid,_,_,front,_,_⟩ := seq_parts isWay
  obtain ⟨begun,_,_,start,_,_⟩ := seq_parts front
  have first : m.around.before = [] := List.isEmpty_iff.mp (mem_waysIf.mp start).1
  have looks : comment.pattern.looksOnly [.textStart] = true := by
    rw [comment,Text.ofString_ofList]
    rfl
  exact own_again found (looksOnly_own (List.forall_mem_singleton.mpr (own_textStart first)) looks _)

theorem standard_eats (member : construct ∈ standard) : construct.pattern.needs (fun _ => true) = true := by
  have all : standard.all (fun construct => construct.pattern.needs fun _ => true) = true := by decide +kernel
  exact List.all_eq_true.mp all construct member

theorem standard_again (member : construct ∈ standard) (found : construct.pattern.matchSomeAt? c = some m) :
    construct.pattern.Again m := by
  rw [matchSomeAt_needed (standard_eats member)] at found
  cases looks : construct.pattern.looksOnly [] with
  | true => exact own_again found (looksOnly_own (List.forall_mem_nil _) looks _)
  | false =>
    have looking : construct ∈ [comment,boldByUnderscores,italicByUnderscores] := by
      rw [← standard_looking]
      exact List.mem_filter.mpr ⟨member,by simp [looks]⟩
    simp only [List.mem_cons,List.not_mem_nil,or_false] at looking
    rcases looking with rfl | rfl | rfl
    · exact comment_again found
    · exact apart_again found
    · exact apart_again found

end Inline

namespace Construct

open Draft

-- What a construct is handed of a draft to rewrite.
def handed (construct : Construct) (d : Draft) (span : Nat × Nat) : Draft :=
  ⟨matchedAt (some construct.name) d.parts span,d.nuid,some construct.name⟩

theorem handed_visible {construct : Construct} {d : Draft} {m : Match}
    (found : m ∈ construct.pattern.occurrences (visibleContentOf (some construct.name) d.parts)) :
    (construct.handed d m.span).visibleContent = m.text := by
  obtain ⟨t,read⟩ := (Pattern.occurrences_way found).reads
  show visibleContentOf (some construct.name) (matchedAt (some construct.name) d.parts m.span) = _
  rw [matchedAt,visibleContentOf_window,Nat.sub_zero,Nat.sub_zero,← Pattern.occurrences_text found]
  exact read.cut.trans read.textTo.symm

-- So a standard construct rewrites every match by the groups that it had in the whole text.
theorem standard_rematches {construct : Construct} {d : Draft} {m : Match} (member : construct ∈ Inline.standard)
    (found : m ∈ construct.pattern.occurrences (visibleContentOf (some construct.name) d.parts)) :
    ∃ n, m.Repeats n ∧ construct.pattern.search? (construct.handed d m.span).visibleContent = some n := by
  obtain ⟨n,repeats,searched,_⟩ := Inline.standard_again member (Pattern.occurrences_some found)
  exact ⟨n,repeats,by rw [handed_visible found,searched]⟩

end Construct
end LightMarkup
