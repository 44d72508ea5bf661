import Statechart.Text.Segment

/-! What event names a transition answers to.

    A transition names its events by descriptors: a descriptor stands for every event whose dotted name
    begins with its segments. A star alone stands for every event, and a transition without descriptors
    answers to no event, which makes it eventless: it is taken on its own. -/

namespace Statechart

/-- The events that a transition answers to. -/
structure Trigger where
  descriptors : List String
  all : Bool
  deriving DecidableEq, Inhabited

namespace Trigger

/-- The trigger of a transition that answers to no event. -/
def eventless : Trigger := ⟨[], false⟩

/-- A descriptor without one star and then one dot at its end. -/
def strip (word : List Char) : List Char := Text.dropLast '.' (Text.dropLast '*' word)

/-- The trigger that a white space separated list of descriptors writes. -/
def ofText (line : String) : Trigger :=
  let words := Text.wordsFrom [] line.toList
  { descriptors :=
      ((words.filter fun w => w != ['*']).map strip).filterMap fun w =>
        if w.isEmpty then none else some (String.ofList w)
    all := words.contains ['*'] }

/-- Whether the transition is taken on its own. -/
def isEventless (t : Trigger) : Bool := t.descriptors.isEmpty && !t.all

/-- Whether the transition answers to the event of a name, or to none. -/
def answers (t : Trigger) : Option String → Bool
  | none => t.isEventless
  | some name =>
    t.all || t.descriptors.any fun d => Text.continuesPastDot d.toList name.toList

/-- Whether the event of a name reports that the process `id` is complete. -/
def reportsCompletion (id name : String) : Bool :=
  match Text.dropPrefix? "done.invoke.".toList name.toList with
  | some rest => Text.continuesPastDot id.toList rest
  | none => false

@[simp] theorem answers_none (t : Trigger) : t.answers none = t.isEventless := rfl

/-- A transition that answers to some event by name is not eventless. -/
theorem isEventless_eq_false_of_answers {t : Trigger} {name : String}
    (h : t.answers (some name) = true) : t.isEventless = false := by
  obtain ⟨ds, all⟩ := t
  cases all with
  | true => simp [isEventless]
  | false =>
    cases ds with
    | nil => simp [answers] at h
    | cons d ds => simp [isEventless]

end Trigger
end Statechart
