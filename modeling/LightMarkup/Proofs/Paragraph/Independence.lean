import LightMarkup.Paragraph.Compile
import LightMarkup.Proofs.Construct.Separating
import LightMarkup.Proofs.Document.Strictness

/-!
The items of a list, and the cells and the caption of a table, are compiled in one text. Where no inline construct takes
what stands in two of them, each becomes what it becomes alone, between the fixed parts of the list or the table.
-/

namespace LightMarkup

open Draft

variable {compiler : Compiler}

-- Every inline construct keeps the parts apart from each other.
def Compiler.separates (compiler : Compiler) (parts : List Part) : Bool :=
  Construct.separate compiler.settings compiler.context compiler.constructs (parts.map fun part => [part])

-- What stands in the place of a part: a fixed part stays, and a live one is compiled alone.
def Compiler.Stands (compiler : Compiler) : Part → Text → Prop
  | .fixed content, shown => shown = content
  | .live content excluded, shown =>
    ∃ d, (compiler.inline (.ofLive content excluded none)).outcome = .ok d ∧ shown = d.content

theorem Compiler.Stands.unique {part : Part} {one two : Text} (first : compiler.Stands part one)
    (second : compiler.Stands part two) : one = two := by
  cases part with
  | fixed content => exact first.trans second.symm
  | live content excluded =>
    obtain ⟨d,ran,rfl⟩ := first
    obtain ⟨e,again,rfl⟩ := second
    rw [ran] at again
    cases again
    rfl

theorem contentOf_flatten (units : List (List Part)) : contentOf units.flatten = (units.map contentOf).flatten := by
  induction units with
  | nil => rfl
  | cons unit units ih => rw [List.flatten_cons,List.map_cons,List.flatten_cons,← ih,contentOf,List.flatMap_append]; rfl

theorem Compiler.inline_stands (standard : compiler.constructs ⊆ Inline.standard) {parts : List Part}
    (apart : compiler.separates parts = true) {nuid : Option Text} {d : Draft}
    (run : (compiler.inline ⟨parts,nuid,none⟩).outcome = .ok d) :
    ∃ shown, List.Forall₂ compiler.Stands parts shown ∧ d.content = shown.flatten := by
  have whole : (parts.map fun part => [part]).flatten = parts := by simp [← List.flatMap_def]
  obtain ⟨made,each,same⟩ := Construct.compile_separate standard apart (congrArg atoms whole.symm) run
  refine ⟨made.map contentOf,?_,?_⟩
  · rw [List.forall₂_map_left_iff] at each
    rw [List.forall₂_map_right_iff]
    refine each.imp fun part out ran => ?_
    cases part with
    | fixed content =>
      rw [Construct.compile_unseen _ _ _ fun _ => rfl] at ran
      cases ran
      simp [Stands,contentOf,Part.content]
    | live content excluded => exact ⟨_,ran,rfl⟩
  · rw [← contentOf_flatten,Draft.content,← contentOf_atoms,same,contentOf_atoms]

namespace Paragraph

theorem units_stand_alone (standard : compiler.constructs ⊆ Inline.standard) (raw : Text) (nuid : Option Text) (d : Draft) :
    ((compileLeaf compiler raw nuid .list).outcome = .ok d →
      ∃ items, (ListItem.ofText compiler.settings.strictLists raw).outcome = .ok items ∧
        (compiler.separates (listParts compiler.settings.bullets nuid items) = true →
          ∃ shown, List.Forall₂ compiler.Stands (listParts compiler.settings.bullets nuid items) shown ∧
            d.content = shown.flatten)) ∧
    ((compileLeaf compiler raw nuid .table).outcome = .ok d →
      ∃ anchor, Anchor.inDocument? compiler.context.document ((Table.ofText raw).metadata.bind (·.identifier)) = .ok anchor ∧
        (compiler.separates (tableParts (Table.ofText raw) anchor nuid) = true →
          ∃ shown, List.Forall₂ compiler.Stands (tableParts (Table.ofText raw) anchor nuid) shown ∧
            d.content = shown.flatten)) := by
  constructor
  · intro run
    obtain ⟨items,listed,inlined⟩ := Logged.outcome_bind_ok.mp run
    exact ⟨items,listed,fun apart => Compiler.inline_stands standard apart inlined⟩
  · intro run
    obtain ⟨anchor,anchored,inlined⟩ := Logged.outcome_bind_ok.mp run
    exact ⟨anchor,anchored,fun apart => Compiler.inline_stands standard apart inlined⟩

-- Two items, and two cells, of which the first is marked.
def markedItems : List ListItem :=
  [⟨0,"-","*a*"⟩,⟨0,"-","b"⟩]

def openingItem : Text :=
  "<li class=\"list-item\"><span class=\"list-item-bullet\">&bull;</span><span class=\"list-item-content\">"

def markedList : Draft :=
  ⟨[.fixed "<ul class=\"list\">",.fixed openingItem,.fixed "<em class=\"italic\">",.live "a" .nothing,.fixed "</em>",
    .fixed "</span></li>",.fixed openingItem,.live "b" .nothing,.fixed "</span></li>",.fixed "</ul>"],none,none⟩

def markedTable : Draft :=
  ⟨[.fixed "<table class=\"table\">",.fixed "<tbody class=\"table-body\">",.fixed "<tr class=\"table-body-row\">",
    .fixed "<td class=\"table-cell\">",.fixed "<em class=\"italic\">",.live "a" .nothing,.fixed "</em>",.fixed "</td>",
    .fixed "<td class=\"table-cell\">",.live "b" .nothing,.fixed "</td>",.fixed "</tr>",.fixed "</tbody>",
    .fixed "</table>"],none,none⟩

theorem units_stand_alone_marked :
    (compileLeaf bareCompiler "- *a*\n- b" none .list).outcome = .ok markedList ∧
      (∃ shown, List.Forall₂ bareCompiler.Stands (listParts bareCompiler.settings.bullets none markedItems) shown ∧
        markedList.content = shown.flatten) ∧
      (compileLeaf bareCompiler "|*a*|b|" none .table).outcome = .ok markedTable ∧
      ∃ shown, List.Forall₂ bareCompiler.Stands (tableParts (Table.ofText "|*a*|b|") none none) shown ∧
        markedTable.content = shown.flatten := by
  have list : (compileLeaf bareCompiler "- *a*\n- b" none .list).outcome = .ok markedList := by decide +kernel
  have table : (compileLeaf bareCompiler "|*a*|b|" none .table).outcome = .ok markedTable := by decide +kernel
  have read : (ListItem.ofText bareCompiler.settings.strictLists "- *a*\n- b").outcome = .ok markedItems := by decide +kernel
  have items : bareCompiler.separates (listParts bareCompiler.settings.bullets none markedItems) = true := by decide +kernel
  have cells : bareCompiler.separates (tableParts (Table.ofText "|*a*|b|") none none) = true := by decide +kernel
  obtain ⟨known,listed,byItem⟩ := (units_stand_alone (List.Subset.refl Inline.standard) _ _ _).1 list
  obtain ⟨anchor,anchored,byCell⟩ := (units_stand_alone (List.Subset.refl Inline.standard) _ _ _).2 table
  obtain rfl : markedItems = known := Except.ok.inj (read.symm.trans listed)
  have nameless : (Table.ofText "|*a*|b|").metadata.bind (·.identifier) = none := by decide +kernel
  rw [nameless] at anchored
  obtain rfl : none = anchor := Except.ok.inj anchored
  exact ⟨list,byItem items,table,byCell cells⟩

-- A star in each of two items.
def starredItems : List ListItem :=
  [⟨0,"-","*a"⟩,⟨0,"-","b*"⟩]

def leakedList : Draft :=
  ⟨[.fixed "<ul class=\"list\">",.fixed openingItem,.fixed "<em class=\"italic\">",.live "a" .nothing,
    .fixed "</span></li>",.fixed openingItem,.live "b" .nothing,.fixed "</em>",.fixed "</span></li>",.fixed "</ul>"],
    none,none⟩

def aloneShown : List Text :=
  ["<ul class=\"list\">",openingItem,"*a","</span></li>",openingItem,"b*","</span></li>","</ul>"]

-- Emphasis begins in the one item and ends in the other.
theorem list_leaks : ¬ ∀ (raw : Text) (nuid : Option Text) (items : List ListItem) (d : Draft),
    (ListItem.ofText bareCompiler.settings.strictLists raw).outcome = .ok items →
    (compileLeaf bareCompiler raw nuid .list).outcome = .ok d →
      ∃ shown, List.Forall₂ bareCompiler.Stands (listParts bareCompiler.settings.bullets nuid items) shown ∧
        d.content = shown.flatten := by
  intro all
  have read : (ListItem.ofText bareCompiler.settings.strictLists "- *a\n- b*").outcome = .ok starredItems := by decide +kernel
  have run : (compileLeaf bareCompiler "- *a\n- b*" none .list).outcome = .ok leakedList := by decide +kernel
  have first : (bareCompiler.inline (.ofLive "*a" .nothing none)).outcome = .ok (.ofLive "*a" .nothing none) := by decide +kernel
  have second : (bareCompiler.inline (.ofLive "b*" .nothing none)).outcome = .ok (.ofLive "b*" .nothing none) := by decide +kernel
  have parts : listParts bareCompiler.settings.bullets none starredItems =
      [.fixed "<ul class=\"list\">",.fixed openingItem,.live "*a" .nothing,.fixed "</span></li>",.fixed openingItem,
        .live "b*" .nothing,.fixed "</span></li>",.fixed "</ul>"] := by decide +kernel
  have alone : List.Forall₂ bareCompiler.Stands (listParts bareCompiler.settings.bullets none starredItems) aloneShown := by
    rw [parts]
    have plain : ∀ t : Text, t = (Draft.ofLive t .nothing none).content := fun t => (List.append_nil t).symm
    exact .cons rfl (.cons rfl (.cons ⟨_,first,plain _⟩ (.cons rfl (.cons rfl (.cons ⟨_,second,plain _⟩
      (.cons rfl (.cons rfl .nil)))))))
  obtain ⟨shown,each,same⟩ := all _ none starredItems leakedList read run
  obtain rfl : shown = aloneShown :=
    List.right_unique_forall₂' (fun _ _ _ one two => one.unique two) each alone
  exact absurd same (by decide +kernel)

end Paragraph
end LightMarkup
