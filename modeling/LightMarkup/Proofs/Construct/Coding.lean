import LightMarkup.Proofs.Construct.Escaping
import LightMarkup.Proofs.Construct.Citing
import LightMarkup.Proofs.Construct.Wrapping
import LightMarkup.Proofs.Html.Scanning
import LightMarkup.Proofs.Loading.Titles

/-!
Code spans. What stands between two backticks is copied, escaped and shut off from all constructs. If no other construct
can begin in the text around it, the span is all that is rewritten, whatever it holds.
-/

namespace LightMarkup

variable {raw opening closing t u w : Text}

namespace Draft

/-- Text that is escaped and shut off from all constructs, between two tags. -/
def sealedIn (opening closing t : Text) : List Part :=
  .fixed opening :: ((Part.live (Html.escape t) .everything).keep ++ [.fixed closing])

theorem sealedIn_unseen (construct : String) : visibleContentOf (some construct) (sealedIn opening closing t) = [] := by
  rw [sealedIn,visibleContentOf_cons,visibleContentOf_append,visibleContentOf_keep]
  rfl

theorem sealedIn_visible : visibleContentOf none (sealedIn opening closing t) = Html.escape t := by
  rw [sealedIn,visibleContentOf_cons,visibleContentOf_append,visibleContentOf_keep]
  exact List.append_nil _

theorem sealedIn_content : contentOf (sealedIn opening closing t) = opening ++ Html.escape t ++ closing := by
  rw [sealedIn,contentOf_cons,contentOf_append,contentOf_keep,contentOf_cons,contentOf_nil,List.append_nil,List.append_assoc]
  rfl

theorem sealedIn_escape : sealedIn opening closing (Html.escape t) = sealedIn opening closing t := by
  rw [sealedIn,Html.escape_escape,sealedIn]

end Draft

namespace Rewriting

open Construct Draft

variable {r : Rewriting} {n start stop : Nat}

-- Of one live part the text of a group is copied, escaped, and shut off from all constructs.
theorem build_sealed (alone : r.draft.parts = [.live raw .nothing]) (seals : r.construct.excluded = .everything)
    (given : r.construct.pattern.hasGroup n = true) (captured : r.found.groupSpan? n = some (start,stop))
    (ordered : start ≤ stop) (within : stop ≤ raw.length) :
    r.build (Inline.captureEscaped n) =
      .ok (Part.live (Html.escape ((raw.take stop).drop start)) .everything).keep := by
  have shown : ∀ t, Part.visibleTo r.draft.scope (.live t .nothing) = true := by
    intro t
    cases scope : r.draft.scope <;> rfl
  have visible : r.draft.visibleContent = raw := by
    rw [visibleContent,alone]
    exact visible_live _ _
  have sliced : r.draft.slice start stop .both = .ok (Part.live ((raw.take stop).drop start) .nothing).keep := by
    rw [slice_both ordered (visible ▸ within),alone,windowFrom_visible (shown raw)]
    exact congrArg Except.ok (List.append_nil _)
  have copied : (Part.live ((raw.take stop).drop start) .nothing).keep.map (r.captured true) =
      (Part.live (Html.escape ((raw.take stop).drop start)) .everything).keep := by
    generalize (raw.take stop).drop start = t
    cases t with
    | nil => rfl
    | cons x t =>
      have some : (Part.live (Html.escape (x :: t)) .everything).content ≠ [] :=
        fun empty => List.cons_ne_nil _ _ (Html.escape_nil_iff.mp empty)
      rw [Part.keep_some some]
      simp [Part.keep,Part.content,Rewriting.captured,isVisible,shown,seals,Exclusion.combine]
  simp [build,Inline.captureEscaped,GroupKey.resolve,given,captured,sliced,copied,bind,Except.bind,pure,Except.pure]

end Rewriting

namespace Inline

open Pattern

def ticked (t : Text) : Text :=
  '\x60' :: (t ++ ['\x60'])

theorem codeSpan_pattern :
    codeSpan.pattern = literal ['\x60'] ++ captured 1 (lazyMany onLine) ++ literal ['\x60'] := by
  rw [codeSpan,Text.ofString_ofList]
  rfl

theorem ticked_length (t : Text) : (ticked t).length = t.length + 2 := by
  simp [ticked]

theorem codeSpan_head {c : Cursor} {rest : Text} (free : '\x60' ∉ t) (single : '\n' ∉ t) (begins : c.after = ticked t ++ rest) :
    (codeSpan.pattern.ways c).head? = some (c.past (ticked t).length,[⟨1,c.past 1,c.past (1 + t.length)⟩]) := by
  have opened : c.after = ['\x60'] ++ (t ++ '\x60' :: rest) := by simp [begins,ticked]
  have inside : (c.past 1).after = t ++ '\x60' :: rest := by rw [Cursor.past_after,opened]; rfl
  have dead : ∀ n < t.length, (literal ['\x60']).ways ((c.past 1).past n) = [] := by
    intro n inner
    refine ways_literal_none fun ⟨behind,same⟩ => free ?_
    rw [Cursor.past_after,inside,List.drop_append_of_le_length (Nat.le_of_lt inner),List.drop_eq_getElem_cons inner] at same
    exact (List.cons.inj same).1 ▸ List.getElem_mem inner
  have closing : ((c.past 1).past t.length).after = ['\x60'] ++ rest := by
    rw [Cursor.past_after,inside,List.drop_left]
    rfl
  have alive : ((literal ['\x60']).ways ((c.past 1).past t.length)).head? = some (((c.past 1).past t.length).past 1,[]) := by
    rw [ways_literal_at closing]
    rfl
  have taken : ((captured 1 (lazyMany onLine) ++ literal ['\x60']).ways (c.past 1)).head? = _ :=
    lazy_takes (.of_after inside) (Text.line_chars single) dead alive
  have length : (ticked t).length = 1 + t.length + 1 := by
    rw [ticked_length]
    omega
  rw [codeSpan_pattern,seq_assoc,head_literal opened,List.length_singleton,taken,length]
  simp only [Cursor.past_past]
  rfl

end Inline

namespace Construct

open Draft Inline Pattern

variable {settings : CompileSettings} {context : Context} {nuid : Option Text} {d : Draft}

-- What a code span becomes.
def codeParts (t : Text) : List Part :=
  sealedIn "<code class=\"language-markup inline-code\">" "</code>" t

theorem codeSpan_rewrites (free : '\x60' ∉ t) (single : '\n' ∉ t) (alone : d.parts = [.live (ticked t) .nothing])
    (visible : d.visibleContent = ticked t) : codeSpan.rewriteMatch settings context d = pure (codeParts t) := by
  have within : 1 + t.length ≤ (ticked t).length := by
    rw [ticked_length]
    omega
  obtain ⟨m,matched,captured⟩ : ∃ m, codeSpan.pattern.matchAt? (.start d.visibleContent) = some m ∧
      m.groupSpan? 1 = some (1,1 + t.length) := by
    have head := codeSpan_head free single (c := .start (ticked t)) (List.append_nil _).symm
    rw [visible]
    have inside : 1 + t.length ≤ (Cursor.start (ticked t)).after.length := within
    have beginning : (Cursor.start (ticked t)).position = 0 := rfl
    have start : ((Cursor.start (ticked t)).past 1).position = _ := Cursor.past_position (by omega)
    have stop := Cursor.past_position inside
    refine ⟨_,by rw [matchAt_head,head]; rfl,?_⟩
    simp [Match.groupSpan?,Match.capture?,start,stop,beginning]
  have given : codeSpan.pattern.hasGroup 1 = true := by
    rw [codeSpan_pattern]
    rfl
  have inner : ((ticked t).take (1 + t.length)).drop 1 = t := by simp [ticked,Nat.add_comm 1]
  have copied : (⟨codeSpan,settings,context,d,m⟩ : Rewriting).build (captureEscaped 1) = _ :=
    Rewriting.build_sealed alone rfl given captured (Nat.le_add_right _ _) within
  rw [rewriteMatch,search_start matched]
  show Logged.ofExcept (Rewriting.buildAll ⟨codeSpan,settings,context,d,m⟩ _) = _
  simp only [Rewriting.buildAll,copied,Rewriting.build_text,inner]
  rfl

theorem codeSpan_spans (before : '\x60' ∉ u) (behind : '\x60' ∉ w) (free : '\x60' ∉ t) (single : '\n' ∉ t)
    (visible : visibleContentOf (some codeSpan.name) d.parts = u ++ (ticked t ++ w)) :
    spansOf codeSpan.name codeSpan.pattern d = [(u.length,u.length + (ticked t).length)] := by
  have begun : codeSpan.pattern.begins '\x60' = true := by
    rw [codeSpan_pattern]
    rfl
  have passes : ∀ {v rest : Text}, '\x60' ∉ v → ∀ n < v.length, ∀ c : Cursor, c.after = v.drop n ++ rest →
      codeSpan.pattern.ways c = [] := by
    intro v rest absent n inside c begins
    refine begins_ways begun ?_
    rw [begins,List.drop_eq_getElem_cons inside]
    exact fun same => absent (Option.some.inj same ▸ List.getElem_mem inside)
  refine spansOf_one (List.cons_ne_nil _ _) visible (passes before) (fun c begins => ⟨_,codeSpan_head free single begins⟩) ?_
  exact fun n inside c begins => passes behind n inside c (begins.trans (List.append_nil _).symm)

-- A code span between words, and two tags around them.
theorem apply_codeSpan (first : u ≠ []) (last : w ≠ []) (before : '\x60' ∉ u) (behind : '\x60' ∉ w) (free : '\x60' ∉ t)
    (single : '\n' ∉ t) :
    (codeSpan.apply settings context ⟨[.fixed opening,.live (u ++ (ticked t ++ w)) .nothing,.fixed closing],nuid,none⟩).outcome =
      .ok ⟨[.fixed opening,.live u .nothing] ++ codeParts t ++ [.live w .nothing,.fixed closing],nuid,none⟩ := by
  have visible : visibleContentOf (some codeSpan.name)
      [.fixed opening,.live (u ++ (ticked t ++ w)) .nothing,.fixed closing] = u ++ (ticked t ++ w) := by
    simp [visibleContentOf,Part.visibleTo,Exclusion.contains,Part.content]
  have hidden : ∀ content, ∀ part ∈ [Part.fixed content], part.visibleTo (some codeSpan.name) = false := fun content =>
    List.forall_mem_singleton.mpr rfl
  have rewrites : codeSpan.rewriteMatch settings context ⟨[.live (ticked t) .nothing],nuid,some codeSpan.name⟩ =
      pure (codeParts t) := codeSpan_rewrites free single rfl (visible_live _ _)
  have applied : (applyAt codeSpan.name _ _
      ⟨[.fixed opening] ++ .live (u ++ (ticked t ++ w)) .nothing :: [.fixed closing],nuid,none⟩).outcome = _ :=
    applyAt_one (List.cons_ne_nil _ _) (hidden opening) (hidden closing) rewrites
  rw [Part.keep_some (show (Part.live u .nothing).content ≠ [] from first),
    Part.keep_some (show (Part.live w .nothing).content ≠ [] from last)] at applied
  rw [apply,codeSpan_spans before behind free single visible]
  simpa using applied

-- Characters with which the constructs begin.
def marks : List Char :=
  '\x60' :: '$' :: '\\' :: starters

theorem compile_codeSpan (included : settings.excluded.contains codeSpan.name = false) (first : u ≠ []) (last : w ≠ [])
    (before : ∀ x ∈ u, x ∉ marks) (behind : ∀ x ∈ w, x ∉ marks) (free : '\x60' ∉ t) (single : '\n' ∉ t) :
    (Draft.compile standard settings context
        ⟨[.fixed opening,.live (u ++ (ticked t ++ w)) .nothing,.fixed closing],nuid,none⟩).outcome =
      .ok ⟨[.fixed opening,.live u .nothing] ++ codeParts t ++ [.live w .nothing,.fixed closing],nuid,none⟩ := by
  have some : settings.excluded ≠ .everything := by
    intro all
    rw [all] at included
    cases included
  have starts : ∀ c ∈ mathSpan :: escape :: behindEscape, ∃ x ∈ marks, c.pattern.begins x = true := by
    have formula : mathSpan.pattern.begins '$' = true := by decide +kernel
    have backslash : escape.pattern.begins '\\' = true := by rw [escape_pattern]; rfl
    refine List.forall_mem_cons.mpr ⟨⟨'$',by decide,formula⟩,List.forall_mem_cons.mpr ⟨⟨'\\',by decide,backslash⟩,?_⟩⟩
    intro c member
    obtain ⟨x,isStarter,begun⟩ := behindEscape_starts c member
    exact ⟨x,by simp [marks,isStarter],begun⟩
  have absent : ∀ x ∈ marks, ∀ construct : String, x ∉ visibleContentOf (.some construct)
      ([.fixed opening,.live u .nothing] ++ codeParts t ++ [.live w .nothing,.fixed closing]) := by
    intro x isMark construct
    have shown : visibleContentOf (.some construct)
        ([.fixed opening,.live u .nothing] ++ codeParts t ++ [.live w .nothing,.fixed closing]) = u ++ w := by
      rw [visibleContentOf_append,visibleContentOf_append,codeParts,sealedIn_unseen]
      simp [visibleContentOf,Part.visibleTo,Exclusion.contains,Part.content]
    rw [shown,List.mem_append,not_or]
    exact ⟨fun member => before x member isMark,fun member => behind x member isMark⟩
  have ran : (codeSpan.apply settings context
      ⟨[.fixed opening,.live (u ++ (ticked t ++ w)) .nothing,.fixed closing],nuid,none⟩).outcome = _ :=
    apply_codeSpan first last (fun member => before _ member (by decide)) (fun member => behind _ member (by decide)) free single
  rw [Draft.compile,if_neg some,standard_eq,applyEach_applied (by simp [included])]
  exact Logged.outcome_bind_ok.mpr ⟨_,ran,by rw [applyEach_unbegun starts absent]; rfl⟩

end Construct

end LightMarkup
