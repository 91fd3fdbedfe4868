import Mathlib.Data.List.Chain
import LightMarkup.Proofs.Loading.Written
import LightMarkup.Proofs.Loading.Partition
import LightMarkup.Proofs.Pattern.Reaching

/-!
Written blocks with blank lines between them, and what a search cuts out of them. A search that passes over some of the
items and takes each of the others whole leaves the items between, which again are blocks with blank lines between them.
-/

namespace LightMarkup

open Pattern (Shut)

inductive Item where
  | gap
  | block (written : Written)

namespace Item

def text : Item → Text
  | gap => ['\n','\n']
  | block written => written.text

def isGap : Item → Bool
  | gap => true
  | block _ => false

def content? : Item → Option BlockContent
  | gap => none
  | block written => some written.content

-- A block has a blank line or an end of the text on both sides, and no blank stands behind a gap. Of the text before,
-- the nearest character stands first.
def Fits (before rest : Text) : Item → Prop
  | gap => ∀ x ∈ rest.head?, Text.isBlank x = false
  | block _ => Shut before ∧ Shut rest

end Item

def spell (items : List Item) : Text :=
  items.flatMap Item.text

def contents (items : List Item) : List BlockContent :=
  items.filterMap Item.content?

abbrev Alternate (items : List Item) : Prop :=
  items.IsChain fun one two => one.isGap ≠ two.isGap

variable {α : Type} {item : Item} {items pending : List Item} {before : Text}

@[simp] theorem spell_cons (item : Item) (items : List Item) : spell (item :: items) = item.text ++ spell items :=
  List.flatMap_cons

@[simp] theorem spell_append (one two : List Item) : spell (one ++ two) = spell one ++ spell two :=
  List.flatMap_append

@[simp] theorem contents_append (one two : List Item) : contents (one ++ two) = contents one ++ contents two :=
  List.filterMap_append

theorem Alternate.left (alternate : Alternate (pending ++ items)) : Alternate pending :=
  (List.isChain_append.mp alternate).1

theorem Alternate.right (alternate : Alternate (pending ++ items)) : Alternate items :=
  (List.isChain_append.mp alternate).2.1

-- Behind a block comes a gap or nothing.
theorem Alternate.shut {written : Written} (alternate : Alternate (.block written :: items)) : Shut (spell items) := by
  cases items with
  | nil => exact Or.inl rfl
  | cons next items =>
    cases next with
    | gap => exact Or.inr ⟨spell items,rfl⟩
    | block other => exact absurd rfl (List.isChain_cons_cons.mp alternate).1

theorem Alternate.solid (alternate : Alternate (.gap :: items)) : ∀ x ∈ (spell items).head?, Text.isBlank x = false := by
  cases items with
  | nil => exact fun _ none => nomatch none
  | cons next items =>
    cases next with
    | gap => exact absurd rfl (List.isChain_cons_cons.mp alternate).1
    | block written =>
      obtain ⟨y,rest,begins,solid⟩ := written.text_begins
      intro x first
      rw [spell_cons,Item.text,begins] at first
      cases first
      exact solid

-- What is found in a text of items: those that are kept are passed over, and in each of the others one find starts.
inductive Cut (keeps : Item → Prop) (found : Item → Cursor → α → Prop) : Text → List Item → List α → Prop where
  | nil {before : Text} : Cut keeps found before [] []
  | pass {before : Text} {item : Item} {items : List Item} {finds : List α} (kept : keeps item)
      (later : Cut keeps found (item.text.reverse ++ before) items finds) : Cut keeps found before (item :: items) finds
  | take {before : Text} {item : Item} {items : List Item} {find : α} {finds : List α}
      (here : found item ⟨before,item.text ++ spell items⟩ find)
      (later : Cut keeps found (item.text.reverse ++ before) items finds) :
      Cut keeps found before (item :: items) (find :: finds)

-- A search that finds nothing in some items and takes each of the others whole.
theorem scan_cut {lengthOf : α → Nat} {attempt : Cursor → Option α} {keeps : Item → Prop}
    {found : Item → Cursor → α → Prop} (atEnd : ∀ before, attempt ⟨before,[]⟩ = none)
    (each : ∀ item ∈ items, ∀ {before rest : Text}, item.Fits before rest →
      keeps item ∧ (∀ n < item.text.length, attempt ((⟨before,item.text ++ rest⟩ : Cursor).past n) = none) ∨
      item.text ≠ [] ∧ ∃ find, attempt ⟨before,item.text ++ rest⟩ = some find ∧ lengthOf find = item.text.length ∧
        found item ⟨before,item.text ++ rest⟩ find)
    (alternate : Alternate items) (begins : ∀ written ∈ items.head?, written.isGap = false → Shut before) :
    Cut keeps found before items (Pattern.scanFrom lengthOf attempt before 0 (spell items)) := by
  induction items generalizing before with
  | nil =>
    rw [show spell [] = [] from rfl,Pattern.scanFrom,atEnd]
    exact .nil
  | cons item items ih =>
    obtain ⟨here,others⟩ := List.forall_mem_cons.mp each
    have fits : item.Fits before (spell items) := by
      cases item with
      | gap => exact alternate.solid
      | block written => exact ⟨begins _ rfl rfl,alternate.shut⟩
    have next : ∀ written ∈ items.head?, written.isGap = false → Shut (item.text.reverse ++ before) := by
      cases item with
      | gap => exact fun _ _ _ => Or.inr ⟨before,rfl⟩
      | block written =>
        intro next isNext isBlock
        cases items with
        | nil => cases isNext
        | cons other items =>
          cases isNext
          exact absurd isBlock.symm (List.isChain_cons_cons.mp alternate).1
    have later := ih others alternate.tail next
    rw [spell_cons]
    rcases here fits with ⟨kept,none⟩ | ⟨some,find,finds,length,isFound⟩
    · rw [Pattern.scan_pass none]
      exact .pass kept later
    · rw [Pattern.scan_take finds some length]
      exact .take isFound later

namespace Item

theorem text_some (item : Item) : item.text ≠ [] := by
  cases item with
  | gap => exact List.cons_ne_nil _ _
  | block written => exact written.text_some

-- The item, and nothing else, is matched.
def Whole (item : Item) (c : Cursor) (m : Match) : Prop :=
  m.start = c ∧ m.stop = c.past item.text.length

variable {item : Item} {before rest : Text} {m : Match}

theorem Whole.start_position (whole : item.Whole ⟨before,item.text ++ rest⟩ m) : m.start.position = before.length := by
  rw [whole.1]
  rfl

theorem Whole.stop_position (whole : item.Whole ⟨before,item.text ++ rest⟩ m) :
    m.stop.position = before.length + item.text.length := by
  rw [whole.2,Cursor.past_position (by simp)]
  rfl

theorem Whole.text (whole : item.Whole ⟨before,item.text ++ rest⟩ m) : m.text = item.text := by
  have read : (⟨before,item.text ++ rest⟩ : Cursor).Reads item.text _ := .of_after rfl
  rw [Match.text,whole.1,whole.2,read.textTo]

-- The items before the match and those behind it, cut out by offsets.
theorem Whole.front {items pending : List Item} {position : Nat} (whole : item.Whole ⟨before,item.text ++ spell items⟩ m)
    (placed : before.length = position + (spell pending).length) :
    (spell (pending ++ item :: items)).take (m.start.position - position) = spell pending := by
  rw [whole.start_position,placed,Nat.add_sub_cancel_left,spell_append,List.take_left]

theorem Whole.back {items pending : List Item} {position : Nat} (whole : item.Whole ⟨before,item.text ++ spell items⟩ m)
    (placed : before.length = position + (spell pending).length) :
    (spell (pending ++ item :: items)).drop (m.stop.position - position) = spell items := by
  have stop := whole.stop_position
  rw [spell_append,spell_cons,← List.append_assoc]
  exact List.drop_left' (by rw [List.length_append]; omega)

theorem Whole.placed {items : List Item} (whole : item.Whole ⟨before,item.text ++ spell items⟩ m) :
    (item.text.reverse ++ before).length = m.stop.position + (spell []).length := by
  simp [whole.stop_position,spell,Nat.add_comm]

end Item

theorem placed_pass {position : Nat} (placed : before.length = position + (spell pending).length) :
    (item.text.reverse ++ before).length = position + (spell (pending ++ [item])).length := by
  simp [placed,spell]
  omega

namespace Loader

variable {items pending : List Item} {before : Text} {keeps own : Item → Prop} {offset position : Nat} {last : LastLevel}

-- Loading succeeds with the blocks that were written.
def Restores (items : List Item) (run : Logged (List PlacedBlock × LastLevel)) : Prop :=
  ∃ blocks next, run.outcome = .ok (blocks,next) ∧ blocks.map (·.content) = contents items

-- `pending` are the items since the last match.
theorem blocksAround_cut {below : Nat → Text → LastLevel → Logged (List PlacedBlock × LastLevel)}
    {loadMatch : Match → Logged (List PlacedBlock)} {ms : List Match}
    (restored : ∀ {offset last items}, Alternate items → (∀ item ∈ items, keeps item) →
      Restores items (below offset (spell items) last))
    (loaded : ∀ {item m}, own item → m.text = item.text →
      ∃ blocks, (loadMatch m).outcome = .ok blocks ∧ blocks.map (·.content) = contents [item])
    (cut : Cut keeps (fun item c m => own item ∧ item.Whole c m) before items ms)
    (alternate : Alternate (pending ++ items)) (kept : ∀ item ∈ pending, keeps item)
    (placed : before.length = position + (spell pending).length) :
    Restores (pending ++ items) (blocksAround below loadMatch offset position (spell (pending ++ items)) last ms) := by
  have around : ∀ {offset last pending}, Alternate pending → (∀ item ∈ pending, keeps item) →
      Restores pending (gapBlocks below offset (spell pending) last) := by
    intro offset last pending alternate kept
    unfold gapBlocks
    split
    · rename_i empty
      cases pending with
      | nil => exact ⟨[],last,rfl,rfl⟩
      | cons item pending =>
        rw [List.isEmpty_iff,spell_cons,List.append_eq_nil_iff] at empty
        exact absurd empty.1 item.text_some
    · exact restored alternate kept
  induction cut generalizing pending position last with
  | nil =>
    rw [List.append_nil] at alternate ⊢
    exact around alternate kept
  | @pass before item items ms keep later ih =>
    have all : ∀ held ∈ pending ++ [item], keeps held :=
      List.forall_mem_append.mpr ⟨kept,List.forall_mem_singleton.mpr keep⟩
    have split : pending ++ item :: items = pending ++ [item] ++ items := by simp
    rw [split] at alternate ⊢
    exact ih alternate all (placed_pass placed)
  | @take before item items m ms here later ih =>
    obtain ⟨isOwn,whole⟩ := here
    obtain ⟨blocks,middle,ranBefore,same⟩ : Restores pending (gapBlocks below (offset + position) (spell pending) last) :=
      around alternate.left kept
    obtain ⟨own,ranHere,sameHere⟩ := loaded isOwn whole.text
    obtain ⟨after,next,ranAfter,sameAfter⟩ : Restores ([] ++ items)
        (blocksAround below loadMatch offset m.stop.position (spell ([] ++ items)) middle ms) :=
      ih alternate.right.tail (List.forall_mem_nil _) whole.placed
    refine ⟨blocks ++ own ++ after,next,?_,?_⟩
    · rw [blocksAround_cons,whole.front placed,whole.back placed]
      exact Logged.outcome_bind_ok.mpr ⟨_,ranBefore,Logged.outcome_bind_ok.mpr ⟨_,ranHere,
        Logged.outcome_bind_ok.mpr ⟨_,ranAfter,rfl⟩⟩⟩
    · rw [List.map_append,List.map_append,same,sameHere,sameAfter,← contents_append,← contents_append]
      simp

end Loader
end LightMarkup
