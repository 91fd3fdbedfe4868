import LightMarkup.Pattern.Search

/-!
The ways in which a pattern matches at a place, in the order in which they are tried: where each ends and what it
captures. Matching with something left to match after it takes the first way that what is left accepts (`run_eq`),
so what holds of every way holds of every match.
-/

namespace LightMarkup
namespace Pattern

-- Captures stand last first, as they do while a pattern is matched.
abbrev Way := Cursor × Captures

def thenWays (first : List Way) (second : Cursor → List Way) : List Way :=
  first.flatMap fun way => (second way.1).map fun next => (next.1,next.2 ++ way.2)

def waysExactly (step : Cursor → List Way) : Nat → Cursor → List Way
  | 0, c => [(c,[])]
  | n + 1, c => thenWays (step c) (waysExactly step n)

-- One round at most for each item of the list.
def waysUpTo {β : Type} (step : Cursor → List Way) (lazily : Bool) : List β → Cursor → List Way
  | [], c => [(c,[])]
  | _ :: left, c =>
    if lazily then (c,[]) :: thenWays (step c) (waysUpTo step lazily left)
    else thenWays (step c) (waysUpTo step lazily left) ++ [(c,[])]

def waysRounds (step : Cursor → List Way) (lazily : Bool) (least : Nat) (most : Option Nat) (c : Cursor) : List Way :=
  match most with
  | none => waysUpTo step lazily c.after c
  | some most => waysUpTo step lazily (List.range (most - least)) c

-- A look ahead keeps what its first way captures and stays where it is.
def waysAhead (c : Cursor) : List Way → List Way
  | [] => []
  | way :: _ => [(c,way.2)]

def waysIf (holds : Bool) (c : Cursor) : List Way :=
  if holds then [(c,[])] else []

def ways : Pattern → Cursor → List Way
  | .empty, c => [(c,[])]
  | .char set, c =>
    match c.next? with
    | some (x, next) => waysIf (set.contains x) next
    | none => []
  | .seq first second, c => thenWays (first.ways c) second.ways
  | .choice first second, c => first.ways c ++ second.ways c
  | .repeated lazily least most body, c =>
    thenWays (waysExactly body.ways least c) (waysRounds body.ways lazily least most)
  | .group number _ body, c => (body.ways c).map fun way => (way.1,⟨number,c,way.1⟩ :: way.2)
  | .ahead body, c => waysAhead c (body.ways c)
  | .notAhead body, c => waysIf (body.ways c).isEmpty c
  | .notBehind set, c => waysIf (match c.before with | [] => true | x :: _ => !set.contains x) c
  | .textStart, c => waysIf c.before.isEmpty c
  | .textEnd, c => waysIf c.after.isEmpty c
  | .lineStart, c => waysIf (isLineStart c) c
  | .lineEnd, c => waysIf (isLineEnd c) c
  | .lastLineEnd, c => waysIf (c.after.isEmpty || c.after == ['\n']) c

variable {α β : Type} {c stop : Cursor} {g : Captures}

-- The first way after which `rest` succeeds.
def firstWay (ws : List Way) (g : Captures) (rest : Rest α) : Option α :=
  ws.findSome? fun way => rest way.1 (way.2 ++ g)

theorem firstWay_one (c : Cursor) (g : Captures) (rest : Rest α) : firstWay [(c,[])] g rest = rest c g := by
  simp [firstWay,List.findSome?_cons]
  cases rest c g <;> rfl

theorem firstWay_append (one two : List Way) (g : Captures) (rest : Rest α) :
    firstWay (one ++ two) g rest = (firstWay one g rest).or (firstWay two g rest) :=
  List.findSome?_append

theorem firstWay_if (holds : Bool) (c : Cursor) (g : Captures) (rest : Rest α) :
    firstWay (waysIf holds c) g rest = if holds then rest c g else none := by
  cases holds with
  | true => exact firstWay_one c g rest
  | false => rfl

theorem firstWay_later (ws : List Way) (held g : Captures) (rest : Rest α) :
    firstWay (ws.map fun next => (next.1,next.2 ++ held)) g rest = firstWay ws (held ++ g) rest := by
  simp [firstWay,List.findSome?_map,Function.comp_def]

theorem firstWay_then (first : List Way) (second : Cursor → List Way) (g : Captures) (rest : Rest α) :
    firstWay (thenWays first second) g rest =
      firstWay first g fun c g => firstWay (second c) g rest := by
  induction first with
  | nil => rfl
  | cons way others ih =>
    show firstWay ((second way.1).map _ ++ thenWays others second) g rest = _
    rw [firstWay_append,firstWay_later,ih]
    simp only [firstWay,List.findSome?_cons]
    split <;> rename_i found <;> rw [found] <;> rfl

-- A step of matching whose ways are known.
def StepOf (step : Step α) (ws : Cursor → List Way) : Prop :=
  ∀ c g rest, step c g rest = firstWay (ws c) g rest

theorem StepOf.exactly {step : Step α} {ws : Cursor → List Way} (known : StepOf step ws) (n : Nat) :
    StepOf (runExactly step n) (waysExactly ws n) := by
  induction n with
  | zero => intro c g rest; exact (firstWay_one c g rest).symm
  | succ n ih =>
    intro c g rest
    simp only [runExactly,waysExactly,known c g,firstWay_then]
    congr 1
    funext c g
    exact ih c g rest

theorem StepOf.upTo {step : Step α} {ws : Cursor → List Way} (known : StepOf step ws) (lazily : Bool) (left : List β) :
    StepOf (runUpTo step lazily left) (waysUpTo ws lazily left) := by
  induction left with
  | nil => intro c g rest; exact (firstWay_one c g rest).symm
  | cons item left ih =>
    intro c g rest
    have rounds : (fun c g => runUpTo step lazily left c g rest) =
        fun c g => firstWay (waysUpTo ws lazily left c) g rest := by
      funext c g
      exact ih c g rest
    cases lazily with
    | true =>
      simp only [runUpTo,waysUpTo,↓reduceIte,known c g,rounds]
      rw [← List.singleton_append,firstWay_append,firstWay_one,firstWay_then]
      cases rest c g <;> rfl
    | false =>
      simp only [runUpTo,waysUpTo,Bool.false_eq_true,↓reduceIte,known c g,rounds]
      rw [firstWay_append,firstWay_one,firstWay_then]
      split <;> rename_i found <;> rw [found] <;> rfl

theorem StepOf.rounds {step : Step α} {ws : Cursor → List Way} (known : StepOf step ws) (lazily : Bool) (least : Nat)
    (most : Option Nat) : StepOf (runRounds step lazily least most) (waysRounds ws lazily least most) := by
  intro c g rest
  cases most with
  | none => exact known.upTo lazily c.after c g rest
  | some most => exact known.upTo lazily (List.range (most - least)) c g rest

theorem firstWay_group (number : Nat) (c : Cursor) (ws : List Way) (g : Captures) (rest : Rest α) :
    firstWay (ws.map fun way => (way.1,⟨number,c,way.1⟩ :: way.2)) g rest =
      firstWay ws g fun stop g => rest stop (⟨number,c,stop⟩ :: g) := by
  simp [firstWay,List.findSome?_map,Function.comp_def]

theorem firstWay_ahead (c : Cursor) (ws : List Way) (g : Captures) (rest : Rest α) :
    firstWay (waysAhead c ws) g rest =
      match firstWay ws g fun _ g => some g with
      | some g => rest c g
      | none => none := by
  cases ws with
  | nil => rfl
  | cons way others =>
    simp only [waysAhead,firstWay,List.findSome?_cons,List.findSome?_nil]
    cases rest c (way.2 ++ g) <;> rfl

-- Matching is a search through the ways, in their order.
theorem run_eq (p : Pattern) : ∀ {α : Type}, StepOf (p.run : Step α) p.ways := by
  induction p with
  | empty => intro α c g rest; exact (firstWay_one c g rest).symm
  | char set =>
    intro α c g rest
    simp only [run,ways]
    cases c.next? with
    | none => rfl
    | some next => exact (firstWay_if _ _ _ _).symm
  | seq first second one two =>
    intro α c g rest
    simp only [run,ways,firstWay_then]
    rw [one]
    congr 1
    funext c g
    exact two c g rest
  | choice first second one two =>
    intro α c g rest
    simp only [run,ways,firstWay_append]
    rw [one,two]
    cases firstWay (first.ways c) g rest <;> rfl
  | repeated lazily least most body ih =>
    intro α c g rest
    simp only [run,ways,firstWay_then]
    rw [StepOf.exactly ih]
    congr 1
    funext c g
    exact StepOf.rounds ih lazily least most c g rest
  | group number name body ih =>
    intro α c g rest
    simp only [run,ways,firstWay_group]
    exact ih _ _ _
  | ahead body ih =>
    intro α c g rest
    cases seen : firstWay (body.ways c) g fun _ g => some g with
    | none => simp only [run,ways,firstWay_ahead,ih c g fun _ g => some g,seen]
    | some held => simp only [run,ways,firstWay_ahead,ih c g fun _ g => some g,seen]
  | notAhead body ih =>
    intro α c g rest
    simp only [run,ways,firstWay_if]
    rw [ih]
    cases body.ways c <;> rfl
  | notBehind set =>
    intro α c g rest
    simp only [run,ways,firstWay_if]
    cases c.before with
    | nil => rfl
    | cons x before => cases known : set.contains x <;> simp [known]
  | textStart => intro α c g rest; exact (firstWay_if _ _ _ _).symm
  | textEnd => intro α c g rest; exact (firstWay_if _ _ _ _).symm
  | lineStart => intro α c g rest; exact (firstWay_if _ _ _ _).symm
  | lineEnd => intro α c g rest; exact (firstWay_if _ _ _ _).symm
  | lastLineEnd => intro α c g rest; exact (firstWay_if _ _ _ _).symm

end Pattern
end LightMarkup
