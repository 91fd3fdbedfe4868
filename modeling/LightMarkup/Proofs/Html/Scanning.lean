import LightMarkup.Proofs.Html.Escaping

/-!
Scanning HTML: whether a place lies in text, in a tag, in the value of an attribute between double quotes, or in a
comment. The scan refuses every angle bracket that neither opens nor closes a tag or a comment.
-/

namespace LightMarkup
namespace Html

inductive Place where
  | text
  -- Behind the bracket that opens a tag or a comment, and behind `<!` and `<!-`.
  | opened
  | declared
  | hyphened
  | tag
  | value
  -- How many hyphens stand right before, counted up to two.
  | comment (hyphens : Nat)
  deriving DecidableEq, Repr

-- The two hyphens that open a comment may also close it: `<!-->` is a comment.
def step : Place → Char → Option Place
  | .text, c => if c = '<' then some .opened else if c = '>' then none else some .text
  | .opened, c =>
    if c = '!' then some .declared else if c = '<' ∨ c = '>' ∨ c = '"' then none else some .tag
  | .declared, c => if c = '-' then some .hyphened else none
  | .hyphened, c => if c = '-' then some (.comment 2) else none
  | .tag, c =>
    if c = '>' then some .text else if c = '"' then some .value else if c = '<' then none else some .tag
  | .value, c => if c = '"' then some .tag else if c = '<' ∨ c = '>' then none else some .value
  | .comment n, c =>
    if c = '-' then some (.comment (min (n + 1) 2))
    else if c = '>' ∧ n = 2 then some .text
    else some (.comment 0)

def scan (place : Place) (t : Text) : Option Place :=
  t.foldlM step place

-- It starts and ends outside of every tag, attribute value and comment.
def Closed (t : Text) : Prop :=
  scan .text t = some .text

instance (t : Text) : Decidable (Closed t) :=
  inferInstanceAs (Decidable (scan .text t = some .text))

-- One comment and nothing else: the scan is not back in text before the last character.
def OneComment (t : Text) : Prop :=
  ("<!--" : Text) <+: t ∧ Closed t ∧ ∀ u v, t = u ++ v → u ≠ [] → v ≠ [] → scan .text u ≠ some .text

abbrev Inert (t : Text) : Prop :=
  ∀ c ∈ t, c ≠ '<' ∧ c ≠ '>'

-- Text that can stand in an attribute value.
abbrev Quiet (t : Text) : Prop :=
  ∀ c ∈ t, c ≠ '<' ∧ c ≠ '>' ∧ c ≠ '"'

variable {t u : Text} {place mid stop : Place}

@[simp] theorem scan_nil (place : Place) : scan place [] = some place := rfl

theorem scan_cons (place : Place) (c : Char) (t : Text) : scan place (c :: t) = (step place c).bind (scan · t) :=
  List.foldlM_cons

theorem scan_append (place : Place) (t u : Text) : scan place (t ++ u) = (scan place t).bind (scan · u) :=
  List.foldlM_append

theorem scan_then (first : scan place t = some mid) (next : scan mid u = some stop) :
    scan place (t ++ u) = some stop := by
  rw [scan_append,first]
  exact next

theorem Closed.append (first : Closed t) (next : Closed u) : Closed (t ++ u) :=
  scan_then first next

-- A place that no character of a text leaves.
theorem scan_stays (stays : ∀ c ∈ t, step place c = some place) : scan place t = some place := by
  induction t with
  | nil => rfl
  | cons c t ih =>
    rw [scan_cons,stays c (List.mem_cons_self ..)]
    exact ih fun x member => stays x (List.mem_cons_of_mem _ member)

theorem Inert.closed (inert : Inert t) : Closed t :=
  scan_stays fun c member => by simp [step,inert c member]

theorem Quiet.in_value (quiet : Quiet t) : scan .value t = some .value :=
  scan_stays fun c member => by simp [step,quiet c member]

theorem Quiet.in_tag (quiet : Quiet t) : scan .tag t = some .tag :=
  scan_stays fun c member => by simp [step,quiet c member]

theorem Quiet.append (one : Quiet t) (two : Quiet u) : Quiet (t ++ u) :=
  List.forall_mem_append.mpr ⟨one,two⟩

theorem Inert.append (one : Inert t) (two : Inert u) : Inert (t ++ u) :=
  List.forall_mem_append.mpr ⟨one,two⟩

theorem Inert.mono (inert : Inert t) (sub : u ⊆ t) : Inert u :=
  fun c member => inert c (sub member)

-- Without a closing bracket a comment goes on.
theorem scan_comment (open_ : ∀ c ∈ t, c ≠ '>') (n : Nat) : ∃ m, scan (.comment n) t = some (.comment m) := by
  induction t generalizing n with
  | nil => exact ⟨n,rfl⟩
  | cons c t ih =>
    have here : ∃ m, step (.comment n) c = some (.comment m) := by
      by_cases hyphen : c = '-'
      · exact ⟨min (n + 1) 2,by simp [step,hyphen]⟩
      · exact ⟨0,by simp [step,hyphen,open_ c (List.mem_cons_self ..)]⟩
    obtain ⟨m,here⟩ := here
    rw [scan_cons,here]
    exact ih (fun x member => open_ x (List.mem_cons_of_mem _ member)) m

theorem escapeChar_inert (c : Char) : Inert (escapeChar c) := by
  unfold escapeChar
  repeat rw [Text.ofString_ofList]
  split
  · simp [Inert]
  · split
    · simp [Inert]
    · rename_i less greater
      exact List.forall_mem_singleton.mpr ⟨less,greater⟩

theorem escape_inert (t : Text) : Inert (escape t) := by
  intro x member
  obtain ⟨c,_,inside⟩ := List.mem_flatMap.mp member
  exact escapeChar_inert c x inside

-- Escaping again changes nothing.
theorem escape_escape (t : Text) : escape (escape t) = escape t := by
  refine escape_plain fun x member angled => ?_
  obtain ⟨less,greater⟩ := escape_inert t x member
  simp [brackets,less,greater] at angled

theorem escapeAttributeChar_quiet (c : Char) : Quiet (escapeAttributeChar c) := by
  unfold escapeAttributeChar escapeChar
  repeat rw [Text.ofString_ofList]
  split
  · simp [Quiet]
  · split
    · simp [Quiet]
    · split
      · simp [Quiet]
      · rename_i quote less greater
        exact List.forall_mem_singleton.mpr ⟨less,greater,quote⟩

theorem escapeAttribute_quiet (t : Text) : Quiet (escapeAttribute t) := by
  induction t with
  | nil => exact List.forall_mem_nil _
  | cons c rest ih =>
    rw [escapeAttribute]
    refine Quiet.append ?_ ih
    split
    · rw [Text.ofString_ofList]
      simp [Quiet]
    · exact escapeAttributeChar_quiet c

-- An attribute stays in its tag.
theorem scan_attr {name value : Text} (named : Quiet name) (quiet : Quiet value) :
    scan .tag (attr name value) = some .tag := by
  have space : scan .tag (" " : Text) = some .tag := by rw [Text.ofString_ofList]; exact rfl
  have opening : scan .tag ("=\"" : Text) = some .value := by rw [Text.ofString_ofList]; exact rfl
  have closing : scan .value ("\"" : Text) = some .tag := by rw [Text.ofString_ofList]; exact rfl
  exact scan_then (scan_then (scan_then (scan_then space named.in_tag) opening) quiet.in_value) closing

theorem scan_idAttribute (identifier : Option Text) : scan .tag (idAttribute identifier) = some .tag := by
  cases identifier with
  | none => rfl
  | some identifier => exact scan_attr (by rw [Text.ofString_ofList]; simp [Quiet]) (escapeAttribute_quiet _)

theorem scan_nuidAttribute (nuid : Option Text) : scan .tag (nuidAttribute nuid) = some .tag := by
  cases nuid with
  | none => rfl
  | some nuid => exact scan_attr (by rw [Text.ofString_ofList]; simp [Quiet]) (escapeAttribute_quiet _)

theorem scan_styleAttributes (baseClasses : Text) (style : Option Text) :
    scan .tag (styleAttributes baseClasses style) = some .tag := by
  have semicolon : Quiet (";" : Text) := by rw [Text.ofString_ofList]; simp [Quiet]
  have stays : ∀ {absent : Bool} {t : Text}, scan .tag t = some .tag →
      scan .tag (if absent then [] else t) = some .tag := by
    intro absent t inTag
    cases absent with
    | true => rfl
    | false => exact inTag
  exact scan_then (stays (scan_attr (by rw [Text.ofString_ofList]; simp [Quiet]) (escapeAttribute_quiet _)))
    (stays (scan_attr (by rw [Text.ofString_ofList]; simp [Quiet]) ((escapeAttribute_quiet _).append semicolon)))

-- One step in a comment. The hyphens that count stand for what was read before.
theorem step_comment {n : Nat} {c : Char} (few : n ≤ 2) (open_ : ¬ (c = '>' ∧ n = 2)) (t : Text) :
    ∃ m ≤ 2, step (.comment n) c = some (.comment m) ∧
      (("-->" : Text) <:+: List.replicate n '-' ++ c :: t ↔ ("-->" : Text) <:+: List.replicate m '-' ++ t) := by
  have closing : ("-->" : Text) = ['-','-','>'] := by rw [Text.ofString_eq]; rfl
  rw [closing]
  by_cases hyphen : c = '-'
  · refine ⟨min (n + 1) 2,Nat.min_le_right _ _,by simp [step,hyphen],?_⟩
    subst hyphen
    match n,few with
    | 0,_ | 1,_ => rfl
    | 2,_ => simp [List.replicate,List.infix_cons_iff]
  · refine ⟨0,Nat.zero_le _,by simp [step,hyphen,open_],?_⟩
    match n,few with
    | 0,_ => simp [List.infix_cons_iff,Ne.symm hyphen]
    | 1,_ => simp [List.replicate,List.infix_cons_iff,Ne.symm hyphen]
    | 2,_ =>
      have other : c ≠ '>' := fun same => open_ ⟨same,rfl⟩
      simp [List.replicate,List.infix_cons_iff,Ne.symm hyphen,Ne.symm other]

-- A comment goes on as long as it has not reached its end.
theorem scan_comment_open {n : Nat} (few : n ≤ 2) (open_ : ¬ ("-->" : Text) <:+: List.replicate n '-' ++ t) :
    ∃ m ≤ 2, scan (.comment n) t = some (.comment m) := by
  induction t generalizing n with
  | nil => exact ⟨n,few,rfl⟩
  | cons c t ih =>
    have notYet : ¬ (c = '>' ∧ n = 2) := by
      rintro ⟨rfl,rfl⟩
      exact open_ ⟨[],t,by rw [Text.ofString_eq]; rfl⟩
    obtain ⟨m,few',here,later⟩ := step_comment few notYet t
    rw [scan_cons,here]
    exact ih few' fun closes => open_ (later.mpr closes)

-- It closes at the first end in it.
theorem scan_comment_closed {n : Nat} (few : n ≤ 2) (closes : ("-->" : Text) <:+: List.replicate n '-' ++ t) :
    ∃ u v, t = u ++ v ∧ u ≠ [] ∧ scan (.comment n) u = some .text := by
  induction t generalizing n with
  | nil =>
    have bracket : '>' ∈ List.replicate n '-' := by
      simpa using closes.subset (show '>' ∈ ("-->" : Text) by rw [Text.ofString_eq]; simp)
    exact absurd (List.eq_of_mem_replicate bracket) (by decide)
  | cons c t ih =>
    by_cases here : c = '>' ∧ n = 2
    · exact ⟨[c],t,rfl,by simp,by simp [scan_cons,step,here]⟩
    · obtain ⟨m,few',next,later⟩ := step_comment few here t
      obtain ⟨u,v,rfl,_,closed⟩ := ih few' (later.mp closes)
      exact ⟨c :: u,v,rfl,by simp,by rw [scan_cons,next]; exact closed⟩

theorem scan_commentStart : scan .text "<!--" = some (.comment 2) := by rw [Text.ofString_ofList]; rfl

-- What stands between the marks of a comment is one comment with them if no end of a comment lies in it, the hyphens
-- of both marks included.
theorem oneComment_iff (t : Text) :
    OneComment ("<!--" ++ t ++ "-->") ↔ ¬ ("-->" : Text) <:+: "--" ++ (t ++ "--") := by
  have hyphens : ("--" : Text) = List.replicate 2 '-' := by rw [Text.ofString_eq]; rfl
  have ending : ("-->" : Text) = "--" ++ ['>'] := by simp only [Text.ofString_eq]; rfl
  have whole : "<!--" ++ t ++ "-->" = ("<!--" : Text) ++ (t ++ "--") ++ ['>'] := by
    rw [ending]
    simp only [List.append_assoc]
  constructor
  · rintro ⟨_,_,once⟩ closes
    rw [hyphens] at closes
    obtain ⟨u,v,same,_,closed⟩ := scan_comment_closed (Nat.le_refl 2) closes
    refine once ("<!--" ++ u) (v ++ ['>']) ?_ (by rw [Text.ofString_eq]; simp) (by simp) (scan_then scan_commentStart closed)
    rw [whole,hyphens,same]
    simp only [List.append_assoc]
  · intro open_
    rw [hyphens] at open_
    have inside : ∀ u v : Text, t ++ List.replicate 2 '-' = u ++ v → ∃ m ≤ 2, scan (.comment 2) u = some (.comment m) := by
      intro u v same
      refine scan_comment_open (Nat.le_refl 2) fun closes => open_ (closes.trans ?_)
      rw [same,← List.append_assoc]
      exact (List.prefix_append _ _).isInfix
    refine ⟨⟨t ++ "-->",by simp only [List.append_assoc]⟩,?_,fun u v same begun left => ?_⟩
    · obtain ⟨m,few,here⟩ := inside t (List.replicate 2 '-') rfl
      have closing : scan (.comment m) "-->" = some .text := by
        rw [ending,hyphens]
        match m,few with
        | 0,_ | 1,_ | 2,_ => rfl
      rw [List.append_assoc]
      exact scan_then scan_commentStart (scan_then here closing)
    · have starts : ∀ n < 5, ("<!--" : Text).take n ≠ [] → scan .text (("<!--" : Text).take n) ≠ some .text := by
        decide_cbv
      obtain ⟨w,x,rfl⟩ := (List.eq_nil_or_concat v).resolve_left left
      rw [whole,List.concat_eq_append] at same
      have inner := (List.append_inj' (same.trans (List.append_assoc u w [x]).symm) rfl).1
      obtain ⟨a,rfl,rest⟩ | ⟨a,start,_⟩ := List.append_eq_append_iff.mp inner
      · obtain ⟨m,_,here⟩ := inside a w (hyphens ▸ rest)
        rw [scan_then scan_commentStart here]
        simp
      · have short : u.length < 5 := by
          have length := congrArg List.length start
          simp only [Text.ofString_eq,List.length_append] at length
          have four : "<!--".toList.length = 4 := rfl
          omega
        have taken : ("<!--" : Text).take u.length = u := by rw [start,List.take_left]
        rw [← taken] at begun ⊢
        exact starts u.length short begun

-- The first end of a comment in it is where it ends.
theorem oneComment_iff_first (t : Text) :
    OneComment ("<!--" ++ t ++ "-->") ↔ ¬ ("-->" : Text) <:+: ("<!--" ++ t ++ "-->" : Text).dropLast := by
  have short : ("<!--" ++ t ++ "-->" : Text).dropLast = '<' :: '!' :: ("--" ++ (t ++ "--")) := by
    have ending : ("-->" : Text) = "--" ++ ['>'] := by simp only [Text.ofString_eq]; rfl
    rw [ending,← List.append_assoc,List.dropLast_concat]
    simp [Text.ofString_eq]
  have closing : ("-->" : Text) = ['-','-','>'] := by rw [Text.ofString_eq]; rfl
  rw [oneComment_iff,short,closing]
  simp [List.infix_cons_iff]

end Html
end LightMarkup
