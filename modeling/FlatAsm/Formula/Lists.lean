import FlatAsm.Formula.Value

/-!
# Lists of formulas

A list can be changed after it has been made, and the change shows wherever
the list is used, whatever name or other list leads to it.  So every list has
a number of its own, and what has become of it is kept under that number.

The main statements say that a list has the elements it was changed to, and
that a change leaves all other lists as they are.
-/

namespace FlatAsm.Formula

/-- The lists that a formula has made, and how it has changed them. -/
structure Lists where
  /-- How many lists there are; their numbers are below it. -/
  made : Nat
  /-- The elements of every list that has been changed. -/
  changed : List (Nat × List Value)

namespace Lists

/-- No lists. -/
def empty : Lists := ⟨0, []⟩

/-- The elements of a list that was made with some elements. -/
def elements (lists : Lists) (number : Nat) (initial : List Value) :
    List Value :=
  (lists.changed.lookup number).getD initial

/-- Change the elements of a list. -/
def change (lists : Lists) (number : Nat) (elements : List Value) : Lists :=
  { lists with
    changed := (number, elements) ::
      lists.changed.filter fun entry => entry.1 != number }

theorem elements_empty (number : Nat) (initial : List Value) :
    empty.elements number initial = initial := rfl

theorem elements_change_same
    (lists : Lists) (number : Nat) (elements initial : List Value) :
    (lists.change number elements).elements number initial = elements := by
  simp [Lists.elements, change]

theorem lookup_filter_other {number other : Nat} (different : other ≠ number)
    (entries : List (Nat × List Value)) :
    (entries.filter fun entry => entry.1 != number).lookup other =
      entries.lookup other := by
  induction entries with
  | nil => rfl
  | cons entry rest inductionHypothesis =>
      rcases entry with ⟨key, elements⟩
      by_cases same : key = number
      · subst same
        have missed : (other == key) = false := by simp [different]
        simp [List.lookup_cons, missed, inductionHypothesis]
      · simp [List.lookup_cons, same, inductionHypothesis]

theorem elements_change_other {number other : Nat}
    (different : other ≠ number)
    (lists : Lists) (elements initial : List Value) :
    (lists.change number elements).elements other initial =
      lists.elements other initial := by
  have missed : (other == number) = false := by simp [different]
  simp [Lists.elements, change, List.lookup_cons, missed,
    lookup_filter_other different]

end Lists

/-- Computing that may make lists and change them. -/
abbrev Changing (α : Type) := StateT Lists (Except FormulaStage) α

/-- Make a new list. -/
def makeList (elements : List Value) : Changing Value := do
  let lists ← get
  set { lists with made := lists.made + 1 }
  return .list lists.made elements

namespace Value

/-- Does the value count as true? -/
def truth (lists : Lists) : Value → Bool
  | .nothing => false
  | .bool value => value
  | .integer value => value ≠ 0
  | .float value => value != 0
  | .string text => !text.isEmpty
  | .bytes values => !values.isEmpty
  | .tuple elements => !elements.isEmpty
  | .list number initial => !(lists.elements number initial).isEmpty
  | .function _ => true

/-- The elements of a sequence. -/
def elements (lists : Lists) : Value → Computing (List Value)
  | .tuple elements => .ok elements
  | .list number initial => .ok (lists.elements number initial)
  | _ => failed

end Value

end FlatAsm.Formula
