import Statechart.Text.Blank

/-! Dotted texts and their segments.

    Event names and variable paths are cut at their dots. Joining the segments with dots gives the text
    back, so a text and its segments determine each other, and one text continues another past a dot
    exactly when the segments of the second are a prefix of those of the first. -/

namespace Statechart.Text

/-- The pieces of a list of characters between its separators; one more than there are separators. -/
def pieces (separator : Char) : List Char → List (List Char)
  | [] => [[]]
  | c :: cs =>
    if c = separator then [] :: pieces separator cs
    else
      match pieces separator cs with
      | [] => [[c]]
      | p :: ps => (c :: p) :: ps

/-- The dot separated segments of a text, empty ones included. -/
def segments (s : String) : List String := (pieces '.' s.toList).map String.ofList

/-- What follows a prefix. -/
def dropPrefix? : (start cs : List Char) → Option (List Char)
  | [], cs => some cs
  | _ :: _, [] => none
  | p :: ps, c :: cs => if p = c then dropPrefix? ps cs else none

/-- Whether a text is `start`, or `start` with a dot and more behind it. -/
def continuesPastDot (start cs : List Char) : Bool :=
  match dropPrefix? start cs with
  | some [] => true
  | some (c :: _) => c = '.'
  | none => false

/-- The list without its last character if that is `c`. -/
def dropLast (c : Char) (cs : List Char) : List Char :=
  if cs.getLast? = some c then List.dropLast cs else cs

theorem pieces_ne_nil (separator : Char) (cs : List Char) : pieces separator cs ≠ [] := by
  cases cs with
  | nil => simp [pieces]
  | cons c cs =>
    simp only [pieces]
    split
    · simp
    · split <;> simp

theorem dropPrefix?_eq_some_iff {start cs rest : List Char} :
    dropPrefix? start cs = some rest ↔ cs = start ++ rest := by
  induction start generalizing cs with
  | nil => simp [dropPrefix?, eq_comm]
  | cons p ps ih =>
    cases cs with
    | nil => simp [dropPrefix?]
    | cons c cs =>
      by_cases h : p = c
      · simp [dropPrefix?, h, ih]
      · simp [dropPrefix?, h, Ne.symm (a := p) (b := c) h]

/-- One text continues another past a dot. -/
theorem continuesPastDot_iff {start cs : List Char} :
    continuesPastDot start cs = true ↔ cs = start ∨ ∃ more, cs = start ++ '.' :: more := by
  have hsplit {rest : List Char} : dropPrefix? start cs = some rest ↔ cs = start ++ rest :=
    dropPrefix?_eq_some_iff
  have hself : cs = start ↔ cs = start ++ [] := by rw [List.append_nil]
  simp only [hself, ← hsplit, continuesPastDot]
  cases dropPrefix? start cs with
  | none => simp
  | some rest => cases rest <;> simp

end Statechart.Text
