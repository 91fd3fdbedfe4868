import LightMarkup.Proofs.Html.Escaping
import LightMarkup.Proofs.Html.Scanning

/-!
Entities in attribute values. Escaping leaves those alone that are there, and makes of every other ampersand one of its own,
so that all ampersands of an escaped value begin an entity. Whether one does is told by the characters behind it, and what
escaping writes never begins with one of these.
-/

namespace LightMarkup
namespace Html

-- The text between the ampersand of an entity and its semicolon.
inductive NamesEntity (marks : List Char) : Text → Prop where
  | named {letters : Text} (some : 1 ≤ letters.length) (short : letters.length ≤ 31)
      (all : ∀ c ∈ letters, isLetter c = true) : NamesEntity marks letters
  | decimal {digits : Text} (some : 1 ≤ digits.length) (short : digits.length ≤ 7)
      (all : ∀ c ∈ digits, isDigit c = true) : NamesEntity marks ('#' :: digits)
  | hexadecimal {mark : Char} {digits : Text} (marked : mark ∈ marks) (some : 1 ≤ digits.length) (short : digits.length ≤ 6)
      (all : ∀ c ∈ digits, isHexDigit c = true) : NamesEntity marks ('#' :: mark :: digits)

-- What may stand behind an ampersand.
def BeginsEntity (marks : List Char) (t : Text) : Prop :=
  ∃ name rest, t = name ++ ';' :: rest ∧ NamesEntity marks name

def hexMarks : List Char :=
  ['x','X']

-- The characters that entities are made of.
def inEntity (c : Char) : Bool :=
  isLetter c || isDigit c || c == '#' || c == ';'

variable {t u name : Text} {c : Char}

theorem run_iff {kind : Char → Bool} (shut : kind ';' = false) (most : Nat) (t : Text) :
    isRunThenSemicolon kind most t = true ↔
      ∃ run rest, t = run ++ ';' :: rest ∧ 1 ≤ run.length ∧ run.length ≤ most ∧ ∀ c ∈ run, kind c = true := by
  have shut' : ¬ kind ';' = true := by simp [shut]
  constructor
  · intro isRun
    simp only [isRunThenSemicolon,Bool.and_eq_true,decide_eq_true_eq,beq_iff_eq] at isRun
    obtain ⟨⟨some,short⟩,behind⟩ := isRun
    obtain ⟨rest,behind⟩ := List.head?_eq_some_iff.mp behind
    exact ⟨_,rest,behind ▸ List.takeWhile_append_dropWhile.symm,some,short,List.all_eq_true.mp List.all_takeWhile⟩
  · rintro ⟨run,rest,rfl,some,short,all⟩
    simp [isRunThenSemicolon,List.takeWhile_append_of_pos all,List.dropWhile_append_of_pos all,shut',some,short]

theorem entityTail_letters (other : t.head? ≠ some '#') : isEntityTail t = isRunThenSemicolon isLetter 31 t := by
  unfold isEntityTail
  split
  · exact absurd rfl other
  · exact absurd rfl other
  · exact absurd rfl other
  · rfl

theorem entityTail_digits (other : ∀ mark ∈ hexMarks, t.head? ≠ some mark) :
    isEntityTail ('#' :: t) = isRunThenSemicolon isDigit 7 t := by
  unfold isEntityTail
  split
  · rename_i same
    cases same
    exact absurd rfl (other 'x' (by decide))
  · rename_i same
    cases same
    exact absurd rfl (other 'X' (by decide))
  · rename_i same
    cases same
    rfl
  · rename_i none
    exact absurd rfl (none t)

theorem isEntityTail_iff (t : Text) : isEntityTail t = true ↔ BeginsEntity hexMarks t := by
  have letters (t : Text) := run_iff (show isLetter ';' = false by decide) 31 t
  have digits (t : Text) := run_iff (show isDigit ';' = false by decide) 7 t
  have hexDigits (t : Text) := run_iff (show isHexDigit ';' = false by decide) 6 t
  constructor
  · intro tail
    unfold isEntityTail at tail
    split at tail
    · obtain ⟨run,rest,rfl,some,short,all⟩ := (hexDigits _).mp tail
      exact ⟨_,rest,rfl,.hexadecimal (show 'x' ∈ hexMarks by decide) some short all⟩
    · obtain ⟨run,rest,rfl,some,short,all⟩ := (hexDigits _).mp tail
      exact ⟨_,rest,rfl,.hexadecimal (show 'X' ∈ hexMarks by decide) some short all⟩
    · obtain ⟨run,rest,rfl,some,short,all⟩ := (digits _).mp tail
      exact ⟨_,rest,rfl,.decimal some short all⟩
    · obtain ⟨run,rest,rfl,some,short,all⟩ := (letters _).mp tail
      exact ⟨_,rest,rfl,.named some short all⟩
  · rintro ⟨name,rest,rfl,names⟩
    cases names with
    | named some short all =>
      obtain ⟨c,name,rfl⟩ := List.exists_cons_of_length_pos some
      have other : c ≠ '#' := by
        rintro rfl
        exact absurd (all '#' (List.mem_cons_self ..)) (by decide)
      rw [entityTail_letters (by simpa using other)]
      exact (letters _).mpr ⟨_,rest,rfl,some,short,all⟩
    | decimal some short all =>
      obtain ⟨c,run,rfl⟩ := List.exists_cons_of_length_pos some
      have markless : hexMarks.all (fun mark => !isDigit mark) = true := by decide
      have other : ∀ mark ∈ hexMarks, (c :: run ++ ';' :: rest).head? ≠ Option.some mark := by
        rintro mark isMark ⟨⟩
        simpa [all c (List.mem_cons_self ..)] using List.all_eq_true.mp markless c isMark
      rw [List.cons_append,entityTail_digits other]
      exact (digits _).mpr ⟨_,rest,rfl,some,short,all⟩
    | hexadecimal isMark some short all =>
      have isRun := (hexDigits _).mpr ⟨_,rest,rfl,some,short,all⟩
      simp only [hexMarks,List.mem_cons,List.not_mem_nil,or_false] at isMark
      rcases isMark with rfl | rfl
      · exact isRun
      · exact isRun

theorem NamesEntity.inEntity {marks : List Char} (known : ∀ mark ∈ marks, inEntity mark = true)
    (names : NamesEntity marks name) : ∀ c ∈ name, inEntity c = true := by
  have hexDigit {c : Char} (isHex : isHexDigit c = true) : Html.inEntity c = true := by
    have small : c ≤ 'f' → c ≤ 'z' := fun le => Char.le_trans le (by decide)
    have large : c ≤ 'F' → c ≤ 'Z' := fun le => Char.le_trans le (by decide)
    simp only [isHexDigit,Html.inEntity,isLetter,Bool.or_eq_true,Bool.and_eq_true,decide_eq_true_eq] at isHex ⊢
    rcases isHex with (digit | ⟨from_a,le⟩) | ⟨from_a,le⟩
    · exact .inl (.inl (.inr digit))
    · exact .inl (.inl (.inl (.inl ⟨from_a,small le⟩)))
    · exact .inl (.inl (.inl (.inr ⟨from_a,large le⟩)))
  cases names with
  | named _ _ all => exact fun c member => by simp [Html.inEntity,all c member]
  | decimal _ _ all =>
    exact List.forall_mem_cons.mpr ⟨by decide,fun c member => by simp [Html.inEntity,all c member]⟩
  | hexadecimal marked _ _ all =>
    exact List.forall_mem_cons.mpr ⟨by decide,List.forall_mem_cons.mpr ⟨known _ marked,fun c member => hexDigit (all c member)⟩⟩

theorem hexMarks_inEntity : ∀ mark ∈ hexMarks, inEntity mark = true :=
  List.all_eq_true.mp (by decide)

-- Only the characters that come before any other tell whether an entity begins.
theorem isEntityTail_front (t : Text) : isEntityTail (t.takeWhile inEntity) = isEntityTail t := by
  rw [Bool.eq_iff_iff,isEntityTail_iff,isEntityTail_iff]
  constructor
  · rintro ⟨name,rest,front,names⟩
    refine ⟨name,rest ++ t.dropWhile inEntity,?_,names⟩
    rw [← List.cons_append,← List.append_assoc,← front,List.takeWhile_append_dropWhile]
  · rintro ⟨name,rest,rfl,names⟩
    refine ⟨name,rest.takeWhile inEntity,?_,names⟩
    rw [List.takeWhile_append_of_pos (names.inEntity hexMarks_inEntity),List.takeWhile_cons_of_pos (by decide)]

-- The entities that escaping writes, each with the character that it stands for.
def entities : List (Text × Char) :=
  [(['l','t'],'<'),(['g','t'],'>'),(['q','u','o','t'],'"'),(['a','m','p'],'&')]

-- Reading these entities back, from left to right.
def decode : Text → Text
  | '&' :: 'l' :: 't' :: ';' :: rest => '<' :: decode rest
  | '&' :: 'g' :: 't' :: ';' :: rest => '>' :: decode rest
  | '&' :: 'q' :: 'u' :: 'o' :: 't' :: ';' :: rest => '"' :: decode rest
  | '&' :: 'a' :: 'm' :: 'p' :: ';' :: rest => '&' :: decode rest
  | c :: rest => c :: decode rest
  | [] => []

variable {word : Text} {x : Char}

theorem entities_named (known : (word,x) ∈ entities) : NamesEntity hexMarks word := by
  have all : entities.all (fun held => 1 ≤ held.1.length && held.1.length ≤ 31 && held.1.all isLetter) = true := by decide
  have held := List.all_eq_true.mp all _ known
  rw [Bool.and_eq_true,Bool.and_eq_true,decide_eq_true_eq,decide_eq_true_eq] at held
  exact .named held.1.1 held.1.2 (List.all_eq_true.mp held.2)

theorem entities_tail (known : (word,x) ∈ entities) (u : Text) : isEntityTail (word ++ ';' :: u) = true :=
  (isEntityTail_iff _).mpr ⟨word,u,rfl,entities_named known⟩

theorem entities_inEntity (known : (word,x) ∈ entities) : ∀ c ∈ word ++ [';'], inEntity c = true :=
  List.forall_mem_append.mpr ⟨(entities_named known).inEntity hexMarks_inEntity,List.forall_mem_singleton.mpr rfl⟩

theorem inEntity_plain (inside : inEntity c = true) : c ∉ '&' :: '"' :: brackets := by
  have outside : ('&' :: '"' :: brackets).all (fun x => !inEntity x) = true := by decide
  intro member
  simpa [inside] using List.all_eq_true.mp outside c member

theorem escape_cons (c : Char) (t : Text) :
    c ∉ brackets ∧ escape (c :: t) = c :: escape t ∨
      ∃ word, (word,c) ∈ entities ∧ c ≠ '&' ∧ escape (c :: t) = '&' :: (word ++ ';' :: escape t) := by
  have split : escape (c :: t) = escapeChar c ++ escape t := rfl
  by_cases less : c = '<'
  · subst less
    exact .inr ⟨['l','t'],by decide,by decide,by rw [split,escapeChar,if_pos rfl,Text.ofString_ofList]; rfl⟩
  by_cases greater : c = '>'
  · subst greater
    exact .inr ⟨['g','t'],by decide,by decide,by
      rw [split,escapeChar,if_neg (by decide),if_pos rfl,Text.ofString_ofList]; rfl⟩
  · have other : c ∉ brackets := by simp [brackets,less,greater]
    exact .inl ⟨other,by rw [split,escapeChar_other other]; rfl⟩

-- A character stays, an ampersand that begins an entity stays, or an entity is written for a character.
theorem escapeAttribute_cons (c : Char) (t : Text) :
    c ∉ '&' :: '"' :: brackets ∧ escapeAttribute (c :: t) = c :: escapeAttribute t ∨
      c = '&' ∧ isEntityTail t = true ∧ escapeAttribute (c :: t) = '&' :: escapeAttribute t ∨
      ∃ word, (word,c) ∈ entities ∧ (c = '&' → isEntityTail t = false) ∧
        escapeAttribute (c :: t) = '&' :: (word ++ ';' :: escapeAttribute t) := by
  by_cases ampersand : c = '&'
  · subst ampersand
    cases tail : isEntityTail t with
    | true => exact .inr (.inl ⟨rfl,rfl,by simp [escapeAttribute,tail,escapeAttributeChar,escapeChar]⟩)
    | false =>
      refine .inr (.inr ⟨['a','m','p'],by decide,fun _ => rfl,?_⟩)
      rw [escapeAttribute,tail,Text.ofString_ofList]
      rfl
  have split : escapeAttribute (c :: t) = escapeAttributeChar c ++ escapeAttribute t := by simp [escapeAttribute,ampersand]
  by_cases quote : c = '"'
  · subst quote
    refine .inr (.inr ⟨['q','u','o','t'],by decide,fun same => absurd same ampersand,?_⟩)
    rw [split,escapeAttributeChar,if_pos rfl,Text.ofString_ofList]
    rfl
  have noQuote : escapeAttributeChar c = escape [c] := by rw [escapeAttributeChar,if_neg quote,escape_single]
  rcases escape_cons c [] with ⟨other,same⟩ | ⟨word,known,_,same⟩
  · exact .inl ⟨by simp [ampersand,quote,other],by rw [split,noQuote,same]; rfl⟩
  · exact .inr (.inr ⟨word,known,fun same => absurd same ampersand,by rw [split,noQuote,same]; simp [escape]⟩)

theorem entities_special (known : (word,x) ∈ entities) : x ∈ '&' :: '"' :: brackets := by
  have special : ∀ held ∈ entities, held.2 ∈ '&' :: '"' :: brackets := by decide
  exact special _ known

theorem escapeAttribute_other (plain : c ∉ '&' :: '"' :: brackets) (t : Text) :
    escapeAttribute (c :: t) = c :: escapeAttribute t := by
  rcases escapeAttribute_cons c t with ⟨_,same⟩ | ⟨rfl,_⟩ | ⟨word,known,_⟩
  · exact same
  · exact absurd (List.mem_cons_self ..) plain
  · exact absurd (entities_special known) plain

theorem escapeAttribute_begun (tail : isEntityTail t = true) : escapeAttribute ('&' :: t) = '&' :: escapeAttribute t := by
  rcases escapeAttribute_cons '&' t with ⟨plain,_⟩ | ⟨_,_,same⟩ | ⟨_,_,none,_⟩
  · exact absurd (List.mem_cons_self ..) plain
  · exact same
  · rw [tail] at none
    cases none rfl

theorem escapeAttribute_run (all : ∀ c ∈ t, inEntity c = true) (u : Text) :
    escapeAttribute (t ++ u) = t ++ escapeAttribute u := by
  induction t with
  | nil => rfl
  | cons c t ih =>
    obtain ⟨here,later⟩ := List.forall_mem_cons.mp all
    rw [List.cons_append,escapeAttribute_other (inEntity_plain here),ih later,List.cons_append]

-- An entity is left alone.
theorem escapeAttribute_entity (known : (word,x) ∈ entities) (u : Text) :
    escapeAttribute ('&' :: (word ++ ';' :: u)) = '&' :: (word ++ ';' :: escapeAttribute u) := by
  rw [escapeAttribute_begun (entities_tail known u),List.append_cons,escapeAttribute_run (entities_inEntity known),
    ← List.append_cons]

theorem ampersand_front (t : Text) : ('&' :: t).takeWhile inEntity = [] := by
  have other : inEntity '&' = false := by decide
  rw [List.takeWhile_cons_of_neg (by simp [other])]

theorem escape_front (t : Text) : (escape t).takeWhile inEntity = t.takeWhile inEntity := by
  induction t with
  | nil => rfl
  | cons c t ih =>
    rcases escape_cons c t with ⟨_,same⟩ | ⟨word,known,_,same⟩
    · rw [same,List.takeWhile_cons,List.takeWhile_cons,ih]
    · have written : ∀ held ∈ entities, inEntity held.2 = false := by decide
      rw [same,ampersand_front,List.takeWhile_cons_of_neg (by simp [written _ known])]

theorem escapeAttribute_front (t : Text) : (escapeAttribute t).takeWhile inEntity = t.takeWhile inEntity := by
  induction t with
  | nil => rfl
  | cons c t ih =>
    rcases escapeAttribute_cons c t with ⟨_,same⟩ | ⟨rfl,_,same⟩ | ⟨word,known,_,same⟩
    · rw [same,List.takeWhile_cons,List.takeWhile_cons,ih]
    · rw [same,ampersand_front,ampersand_front]
    · have written : ∀ held ∈ entities, inEntity held.2 = false := by decide
      rw [same,ampersand_front,List.takeWhile_cons_of_neg (by simp [written _ known])]

-- So escaping makes no entity of an ampersand that began none, and spoils none.
theorem escape_tail (t : Text) : isEntityTail (escape t) = isEntityTail t := by
  rw [← isEntityTail_front,escape_front,isEntityTail_front]

theorem escapeAttribute_tail (t : Text) : isEntityTail (escapeAttribute t) = isEntityTail t := by
  rw [← isEntityTail_front,escapeAttribute_front,isEntityTail_front]

theorem escapeAttribute_named (t : Text) :
    ∀ behind, '&' :: behind <:+ escapeAttribute t → BeginsEntity hexMarks behind := by
  -- In an entity there is only the ampersand that begins it.
  have inner : ∀ {v u behind : Text}, (∀ c ∈ v, inEntity c = true) → '&' :: behind <:+ v ++ u → '&' :: behind <:+ u := by
    intro v u behind all suffix
    induction v with
    | nil => exact suffix
    | cons c v ih =>
      obtain ⟨here,later⟩ := List.forall_mem_cons.mp all
      rcases List.suffix_cons_iff.mp suffix with same | suffix
      · obtain ⟨rfl,_⟩ := List.cons.inj same
        exact absurd here (by decide)
      · exact ih later suffix
  induction t with
  | nil => exact fun behind suffix => absurd (List.suffix_nil.mp suffix) (List.cons_ne_nil _ _)
  | cons c t ih =>
    intro behind suffix
    rcases escapeAttribute_cons c t with ⟨plain,same⟩ | ⟨rfl,tail,same⟩ | ⟨word,known,_,same⟩
    · rw [same] at suffix
      rcases List.suffix_cons_iff.mp suffix with first | later
      · obtain ⟨rfl,_⟩ := List.cons.inj first
        exact absurd (List.mem_cons_self ..) plain
      · exact ih behind later
    · rw [same] at suffix
      rcases List.suffix_cons_iff.mp suffix with first | later
      · obtain ⟨_,rfl⟩ := List.cons.inj first
        exact (isEntityTail_iff _).mp (by rw [escapeAttribute_tail,tail])
      · exact ih behind later
    · rw [same] at suffix
      rcases List.suffix_cons_iff.mp suffix with first | later
      · obtain ⟨_,rfl⟩ := List.cons.inj first
        exact ⟨word,_,rfl,entities_named known⟩
      · rw [List.append_cons] at later
        exact ih behind (inner (entities_inEntity known) later)

theorem escapeAttribute_twice (t : Text) : escapeAttribute (escapeAttribute t) = escapeAttribute t := by
  induction t with
  | nil => rfl
  | cons c t ih =>
    rcases escapeAttribute_cons c t with ⟨plain,same⟩ | ⟨rfl,tail,same⟩ | ⟨word,known,_,same⟩
    · rw [same,escapeAttribute_other plain,ih]
    · rw [same,escapeAttribute_begun (by rw [escapeAttribute_tail,tail]),ih]
    · rw [same,escapeAttribute_entity known,ih]

-- A bracket becomes the same entity in text and in a value.
theorem escapeAttribute_escape (t : Text) : escapeAttribute (escape t) = escapeAttribute t := by
  have once : ∀ one ∈ entities, ∀ two ∈ entities, one.2 = two.2 → one.1 = two.1 := by decide
  induction t with
  | nil => rfl
  | cons c t ih =>
    rcases escape_cons c t with ⟨_,same⟩ | ⟨word,known,bare,same⟩
    · rw [same,escapeAttribute,escapeAttribute,escape_tail,ih]
    · rw [same,escapeAttribute_entity known,ih]
      rcases escapeAttribute_cons c t with ⟨plain,_⟩ | ⟨rfl,_⟩ | ⟨other,known',_,same'⟩
      · exact absurd (entities_special known) plain
      · exact absurd rfl bare
      · rw [same',show word = other from once _ known _ known' rfl]

theorem decode_entity (known : (word,x) ∈ entities) (u : Text) : decode ('&' :: (word ++ ';' :: u)) = x :: decode u := by
  simp only [entities,List.mem_cons,List.not_mem_nil,or_false,Prod.mk.injEq] at known
  rcases known with ⟨rfl,rfl⟩ | ⟨rfl,rfl⟩ | ⟨rfl,rfl⟩ | ⟨rfl,rfl⟩ <;> rfl

theorem decode_other (other : c ≠ '&') (t : Text) : decode (c :: t) = c :: decode t := by
  rw [decode.eq_def]
  split
  all_goals simp_all

theorem decode_bare (none : ∀ held ∈ entities, ¬ held.1 ++ [';'] <+: t) : decode ('&' :: t) = '&' :: decode t := by
  simp only [entities,List.forall_mem_cons,List.cons_append,List.nil_append] at none
  obtain ⟨lt,gt,quot,amp,_⟩ := none
  rw [decode.eq_def]
  split <;> rename_i same <;> cases same
  · exact absurd ⟨_,rfl⟩ lt
  · exact absurd ⟨_,rfl⟩ gt
  · exact absurd ⟨_,rfl⟩ quot
  · exact absurd ⟨_,rfl⟩ amp
  · rfl

-- What begins with an entity does so before and after escaping.
theorem prefix_front (all : ∀ c ∈ t, inEntity c = true) (u : Text) : t <+: u ↔ t <+: u.takeWhile inEntity := by
  constructor
  · rintro ⟨rest,rfl⟩
    exact ⟨rest.takeWhile inEntity,(List.takeWhile_append_of_pos all).symm⟩
  · exact fun front => front.trans (List.takeWhile_prefix _)

theorem decode_escapeAttribute (t : Text) : decode (escapeAttribute t) = decode t := by
  -- Behind an ampersand it goes on behind the whole entity, so the induction is on the length.
  induction n : t.length using Nat.strongRecOn generalizing t with
  | ind n ih =>
    subst n
    cases t with
    | nil => rfl
    | cons c t =>
      have later := ih t.length (Nat.lt_succ_self _) t rfl
      rcases escapeAttribute_cons c t with ⟨plain,same⟩ | ⟨rfl,_,same⟩ | ⟨word,known,bare,same⟩
      · have other : c ≠ '&' := fun same => plain (same ▸ List.mem_cons_self ..)
        rw [same,decode_other other,decode_other other,later]
      · rw [same]
        by_cases entity : ∃ held ∈ entities, held.1 ++ [';'] <+: t
        · obtain ⟨⟨word,x⟩,known,u,rfl⟩ := entity
          have shorter : u.length < ('&' :: (word ++ [';'] ++ u)).length := by simp; omega
          rw [escapeAttribute_run (entities_inEntity known),← List.append_cons,← List.append_cons,decode_entity known,
            decode_entity known,ih _ shorter u rfl]
        · have none : ∀ held ∈ entities, ¬ held.1 ++ [';'] <+: t := fun held known begins => entity ⟨held,known,begins⟩
          have none' : ∀ held ∈ entities, ¬ held.1 ++ [';'] <+: escapeAttribute t := by
            intro held known begins
            rw [prefix_front (entities_inEntity known),escapeAttribute_front,← prefix_front (entities_inEntity known)] at begins
            exact none held known begins
          rw [decode_bare none,decode_bare none',later]
      · rw [same,decode_entity known,later]
        by_cases ampersand : c = '&'
        · subst ampersand
          refine (decode_bare fun held isEntity begins => ?_).symm
          obtain ⟨u,rfl⟩ := begins
          have tail := entities_tail isEntity u
          rw [List.append_cons,bare rfl] at tail
          cases tail
        · exact (decode_other ampersand t).symm

-- Nothing in an escaped value ends it or its tag, each ampersand in it begins an entity, escaping once more or escaping the
-- brackets before or after changes nothing, and an escaped value is read as the value is.
theorem escapeAttribute_safe (t : Text) :
    (∀ c ∈ escapeAttribute t, c ≠ '<' ∧ c ≠ '>' ∧ c ≠ '"') ∧
      (∀ before behind, escapeAttribute t = before ++ '&' :: behind → BeginsEntity hexMarks behind) ∧
      escapeAttribute (escapeAttribute t) = escapeAttribute t ∧
      escapeAttribute (escape t) = escapeAttribute t ∧ escape (escapeAttribute t) = escapeAttribute t ∧
      decode (escapeAttribute t) = decode t := by
  have quiet := escapeAttribute_quiet t
  refine ⟨quiet,fun before behind same => ?ampersands,escapeAttribute_twice t,escapeAttribute_escape t,?brackets,
    decode_escapeAttribute t⟩
  case ampersands => exact escapeAttribute_named t behind ⟨before,same.symm⟩
  case brackets =>
    refine escape_plain fun c member angled => ?_
    simp only [brackets,List.mem_cons,List.not_mem_nil,or_false] at angled
    exact angled.elim (quiet c member).1 (quiet c member).2.1

-- The mark of a hexadecimal number may be a capital letter: such an entity is left alone as well.
theorem capital_mark_stays :
    escapeAttribute "&#X41;" = [] ++ '&' :: Text.ofString "#X41;" ∧ ¬ BeginsEntity ['x'] "#X41;" := by
  repeat rw [Text.ofString_ofList]
  refine ⟨by decide,?_⟩
  rintro ⟨name,rest,same,names⟩
  cases names with
  | named some _ all =>
    obtain ⟨c,name,rfl⟩ := List.exists_cons_of_length_pos some
    obtain ⟨rfl,_⟩ := List.cons.inj same
    exact absurd (all '#' (List.mem_cons_self ..)) (by decide)
  | decimal some _ all =>
    obtain ⟨c,digits,rfl⟩ := List.exists_cons_of_length_pos some
    obtain ⟨_,same⟩ := List.cons.inj same
    obtain ⟨rfl,_⟩ := List.cons.inj same
    exact absurd (all 'X' (List.mem_cons_self ..)) (by decide)
  | hexadecimal marked _ _ _ =>
    obtain ⟨_,same⟩ := List.cons.inj same
    obtain ⟨rfl,_⟩ := List.cons.inj same
    exact absurd marked (by decide)

end Html
end LightMarkup
