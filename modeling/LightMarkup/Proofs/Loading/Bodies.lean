import Mathlib
import LightMarkup.Proofs.Loading.Written
import LightMarkup.Proofs.Complaints

/-!
The bodies of containers. What a quote or a focus block loads inside it is shorter than its own text, however its lines
are broken and whichever of them are skipped.
-/

namespace LightMarkup

namespace Text

-- A line with its break takes at least one character, and a last line without a break is not empty.
theorem lines_total (t : Text) : ((lines t).map fun line => max 1 line.length).sum ≤ t.length := by
  induction t using lines.induct with
  | case1 => simp [lines]
  | case2 rest ih =>
    simp only [lines,List.map_cons,List.sum_cons,List.length_cons,List.length_nil]
    omega
  | case3 x rest other isBreak ih =>
    simp only [lines,isBreak,if_true,List.map_cons,List.sum_cons,List.length_cons,List.length_nil]
    omega
  | case4 x rest other notBreak none ih =>
    simp [lines,notBreak,none]
  | case5 x rest other notBreak line others split ih =>
    rw [split] at ih
    simp only [lines,notBreak,split,Bool.false_eq_true,if_false,List.map_cons,List.sum_cons,List.length_cons] at ih ⊢
    omega

-- Between lines there is one character.
theorem join_length {ts : List Text} (some : ts ≠ []) :
    (join ['\n'] ts).length + 1 = (ts.map fun t => t.length + 1).sum := by
  obtain ⟨t,ts,rfl⟩ := List.exists_cons_of_ne_nil some
  rw [join_cons]
  simp only [List.cons_append,List.nil_append,List.length_append,List.length_flatMap,List.length_cons,List.map_cons,
    List.sum_cons]
  omega

theorem trim_length (t : Text) : (trim t).length ≤ t.length := by
  have front := (List.dropWhile_suffix (p := isBlank) (l := t)).length_le
  have back := (List.dropWhile_suffix (p := isBlank) (l := (trimStart t).reverse)).length_le
  simp only [trim,trimEnd,trimStart,List.length_reverse] at front back ⊢
  omega

end Text

namespace Quote

variable {strict : Bool} {line content : Text}

theorem content_length (marked : content? line = some content) : content.length + 1 ≤ line.length := by
  have trimmed := Text.trim_length line
  unfold content? at marked
  split at marked
  · rename_i same
    cases marked
    rw [same] at trimmed
    simp only [List.length_cons] at trimmed
    omega
  · rename_i same
    cases marked
    rw [same] at trimmed
    exact trimmed
  · cases marked

theorem bodyLines_total {lines body : List Text} (run : (bodyLines strict lines).outcome = .ok body) :
    (body.map fun line => line.length + 1).sum ≤ (lines.map fun line => max 1 line.length).sum := by
  induction lines generalizing body with
  | nil =>
    cases run
    exact Nat.le_refl _
  | cons line rest ih =>
    have kept : ∀ {first : Text} {others : List Text}, (bodyLines strict rest).outcome = .ok others →
        first.length + 1 ≤ max 1 line.length → ((first :: others).map fun line => line.length + 1).sum ≤
          ((line :: rest).map fun line => max 1 line.length).sum := by
      intro first others later here
      have below := ih later
      simp only [List.map_cons,List.sum_cons]
      omega
    cases marked : content? line with
    | some content =>
      simp only [bodyLines,marked] at run
      obtain ⟨others,later,same⟩ := Logged.outcome_bind_ok.mp run
      cases same
      exact kept later (Nat.le_trans (content_length marked) (Nat.le_max_right _ _))
    | none =>
      cases blank : Text.isAllBlank line with
      | true =>
        simp only [bodyLines,marked,blank,if_true] at run
        obtain ⟨others,later,same⟩ := Logged.outcome_bind_ok.mp run
        cases same
        exact kept later (Nat.le_max_left _ _)
      | false =>
        rw [bodyLines_mark marked blank] at run
        obtain ⟨_,_,later⟩ := Logged.outcome_bind_ok.mp run
        have below := ih later
        simp only [List.map_cons,List.sum_cons]
        omega

theorem ofText_shorter {raw body : Text} {type : Option Text} (some : raw ≠ [])
    (run : (ofText strict raw).outcome = .ok (type,body)) : body.length < raw.length := by
  have total := Text.lines_total raw
  have shorter : ∀ {lines body : List Text}, (bodyLines strict lines).outcome = .ok body →
      (lines.map fun line => max 1 line.length).sum ≤ ((Text.lines raw).map fun line => max 1 line.length).sum →
        (Text.join "\n" body).length < raw.length := by
    intro lines body read part
    rw [Text.newline]
    by_cases none : body = []
    · rw [none]
      exact List.length_pos_iff.mpr some
    · have below := bodyLines_total read
      have length := Text.join_length none
      omega
  unfold ofText at run
  simp only at run
  split at run
  · obtain ⟨lines,read,same⟩ := Logged.outcome_bind_ok.mp run
    cases same
    refine shorter read ?_
    cases Text.lines raw <;> simp
  · obtain ⟨lines,read,same⟩ := Logged.outcome_bind_ok.mp run
    cases same
    exact shorter read (Nat.le_refl _)

end Quote

namespace Pattern

-- Whether a character is read before anything is captured.
def readsFirst : Pattern → Bool
  | .char _ => true
  | .seq first _ => first.readsFirst
  | _ => false

variable {p : Pattern} {c : Cursor} {way : Way}

theorem readsFirst_shorter (reads : p.readsFirst = true) (found : way ∈ p.ways c) :
    way.1.after.length < c.after.length ∧ ∀ k ∈ way.2, k.start.after.length < c.after.length := by
  induction p generalizing c way with
  | char set =>
    obtain ⟨x,next,read,_,rfl⟩ := mem_char.mp found
    have length := (Cursor.next_reads read).length
    exact ⟨by simp at length ⊢; omega,List.forall_mem_nil _⟩
  | seq first second one two =>
    obtain ⟨mid,front,next,back,rfl⟩ := mem_seq.mp found
    obtain ⟨less,before⟩ := one reads front
    obtain ⟨later,behind⟩ := ways_ahead _ _ back
    refine ⟨Nat.lt_of_le_of_lt later.length_le less,fun k member => ?_⟩
    rcases List.mem_append.mp member with member | member
    · exact Nat.lt_of_le_of_lt (behind k member).length_le less
    · exact before k member
  | _ => cases reads

theorem group_shorter {m : Match} (reads : p.readsFirst = true) (way : m.IsWay p) {n : Nat} (number : n ≠ 0) :
    (m.group n).length < m.start.after.length := by
  obtain ⟨less,captures⟩ := readsFirst_shorter reads way
  rw [Match.group,Match.group?]
  cases captured : m.capture? n with
  | none => exact Nat.lt_of_le_of_lt (Nat.zero_le _) less
  | some k =>
    rw [Match.capture?,if_neg number] at captured
    refine Nat.lt_of_le_of_lt ?_ (captures k (List.mem_of_find?_eq_some captured))
    simp [Cursor.textTo]

end Pattern

-- What a focus block holds between its fences.
theorem Block.focus_shorter {raw : Text} {m : Match} (found : Block.focus.pattern.matchStart? raw = some m) :
    (m.group 2).length < raw.length := by
  obtain ⟨start,way⟩ := Pattern.matchAt_way found
  have shorter := Pattern.group_shorter (p := Block.focus.pattern) (by decide_cbv) way (n := 2) (by decide)
  rwa [start] at shorter

end LightMarkup
