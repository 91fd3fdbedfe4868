import Mathlib
import LightMarkup.Document.Heading

/-!
Keys of chapter tags in letters of any case. A key is looked up in lower case, which is taken by the mapping of all scripts. No
capital outside ASCII becomes a letter that keys are made of: the Kelvin sign becomes a `k`, which no key has.
-/

namespace LightMarkup

namespace Text

variable {t word before : Text} {c : Char}

-- The letters that keys are made of.
def isKeyLetter (x : Char) : Bool :=
  0x61 ≤ x.toNat && x.toNat ≤ 0x7a && x != 'k'

theorem isKeyLetter_foreign (foreign : 0x80 ≤ c.toNat) : isKeyLetter c = false := by
  have beyond : ¬ c.toNat ≤ 0x7a := by omega
  simp [isKeyLetter,beyond]

theorem isKeyLetter_ofNat {n : Nat} (foreign : 0x80 ≤ n) : isKeyLetter (Char.ofNat n) = false := by
  unfold Char.ofNat
  split
  case isTrue valid => exact isKeyLetter_foreign (by simpa [Char.ofNatAux,Char.toNat] using foreign)
  case isFalse => decide

-- Only the run of the Kelvin sign leads into ASCII.
theorem lowerChar_foreign (foreign : 0x80 ≤ c.toNat) : ∃ x ∈ lowerChar c, isKeyLetter x = false := by
  have runs : capitalRuns.all (fun run => decide (0x80 ≤ (run.1 : Int) + run.2.2.2) ||
      run.1 == 0x212a && run.2.1 == 0x212a && run.2.2.2 == 0x6b - 0x212a) = true := by
    decide +kernel
  unfold lowerChar
  rw [if_neg (Nat.not_lt.mpr foreign)]
  split
  · exact ⟨'\u0307',by simp,by decide⟩
  split
  · exact ⟨'\u03c3',by simp,by decide⟩
  split
  case h_1 first last step distance found =>
    refine ⟨_,List.mem_singleton_self _,?_⟩
    have inside := List.find?_some found
    have known := List.all_eq_true.mp runs _ (List.mem_of_find?_eq_some found)
    simp only [Bool.and_eq_true,decide_eq_true_eq,beq_iff_eq,Bool.or_eq_true] at inside known
    rcases known with far | ⟨⟨rfl,rfl⟩,rfl⟩
    · exact isKeyLetter_ofNat (by omega)
    · have kelvin : (c.toNat + (0x6b - 0x212a) : Int).toNat = 0x6b := by omega
      rw [kelvin]
      decide
  case h_2 => exact ⟨c,List.mem_singleton_self c,isKeyLetter_foreign foreign⟩

theorem toLower_foreign (foreign : 0x80 ≤ c.toNat) : c.toLower = c := by
  refine dif_neg fun upper => ?_
  have bound : c.toNat ≤ 0x5a := UInt32.le_iff_toNat_le.mp upper.2
  omega

theorem lowerAfter_plain (plain : ∀ c ∈ t, c.toNat < 0x80) : lowerAfter before t = t.map Char.toLower := by
  induction t generalizing before with
  | nil => rfl
  | cons c t ih =>
    obtain ⟨here,later⟩ := List.forall_mem_cons.mp plain
    have other : c.toNat ≠ 0x3a3 := by omega
    rw [lowerAfter,ih later]
    simp [other,lowerChar,here]

-- What is lowered to letters of keys is in ASCII.
theorem plain_of_lowerAfter (letters : ∀ x ∈ lowerAfter before t, isKeyLetter x = true) : ∀ c ∈ t, c.toNat < 0x80 := by
  induction t generalizing before with
  | nil => exact List.forall_mem_nil _
  | cons c t ih =>
    rw [lowerAfter,List.forall_mem_append] at letters
    refine List.forall_mem_cons.mpr ⟨Nat.lt_of_not_le fun foreign => ?_,ih letters.2⟩
    have piece : ∃ x ∈ (if c.toNat = 0x3a3 && endsWord before t then ['\u03c2'] else lowerChar c),
        isKeyLetter x = false := by
      split
      · exact ⟨'\u03c2',List.mem_singleton_self _,by decide⟩
      · exact lowerChar_foreign foreign
    obtain ⟨x,member,other⟩ := piece
    rw [letters.1 x member] at other
    cases other

-- For such letters the two ways of taking lower case agree.
theorem lower_letters (letters : ∀ x ∈ word, isKeyLetter x = true) : lower t = word ↔ t.map Char.toLower = word := by
  constructor
  · rintro rfl
    exact (lowerAfter_plain (plain_of_lowerAfter letters)).symm
  · rintro rfl
    refine lowerAfter_plain fun c member => Nat.lt_of_not_le fun foreign => ?_
    have letter := letters c.toLower (List.mem_map_of_mem member)
    rw [toLower_foreign foreign,isKeyLetter_foreign foreign] at letter
    cases letter

end Text

namespace TagKey

-- The words for a key, in small letters.
def spellings : TagKey → List Text
  | .styleClass => ["styleclass","class"]
  | key => [key.name]

def Spelled (key : TagKey) (word : Text) : Prop :=
  word.map Char.toLower ∈ key.spellings

instance (key : TagKey) (word : Text) : Decidable (key.Spelled word) :=
  inferInstanceAs (Decidable (_ ∈ _))

theorem spellings_letters {key : TagKey} {word : Text} (known : word ∈ key.spellings) :
    ∀ x ∈ word, Text.isKeyLetter x = true := by
  have each : ∀ key : TagKey, key.spellings.all (·.all Text.isKeyLetter) = true := by
    rintro (_ | _ | _ | _ | _ | _) <;> decide_cbv
  exact List.all_eq_true.mp (List.all_eq_true.mp (each key) word known)

-- A word is read as the key that it spells.
theorem ofText_spelled {word : Text} {key : TagKey} : ofText? word = some key ↔ key.Spelled word := by
  have lowered : Text.lower word ∈ key.spellings ↔ key.Spelled word := by
    constructor
    · intro known
      rwa [Spelled,(Text.lower_letters (spellings_letters known)).mp rfl]
    · intro known
      rwa [(Text.lower_letters (spellings_letters known)).mpr rfl]
  rw [← lowered,ofText?]
  generalize Text.lower word = small
  constructor
  · intro found
    split at found
    · cases found
      simp_all [spellings]
    · have named : key.name = small := by simpa using List.find?_some found
      subst named
      cases key <;> exact List.mem_cons_self ..
  · intro known
    have each : ∀ key : TagKey, key.spellings.all (fun small =>
        (if small = "class" then some .styleClass else all.find? fun key => key.name = small) == some key) = true := by
      rintro (_ | _ | _ | _ | _ | _) <;> decide_cbv
    exact eq_of_beq (List.all_eq_true.mp (each key) small known)

end TagKey
end LightMarkup
