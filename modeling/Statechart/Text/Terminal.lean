/-! What of a text a terminal shows.

    Control sequences begin with an escape character and say how to show what follows, not what to
    show. `mark` runs through a text and says of every character whether it is shown, and `plain` keeps
    the characters that are. Of the single controls only the ASCII blanks and line breaks are shown,
    and one of them inside a sequence ends it, but for the sequences that hold a text of their own. -/

namespace Statechart.Text

/-- Where a terminal stands: outside of sequences, behind an escape character, behind an escape
    character and a blank or punctuation mark, in a command, in a command of the system, or in a text
    for a device. -/
inductive TerminalState where
  | outside
  | escape
  | designation
  | command
  | systemCommand
  | deviceText
  deriving DecidableEq

namespace TerminalState

/-- The state behind a character that is not shown. -/
def next (s : TerminalState) (c : Char) : TerminalState :=
  let n := c.toNat
  if n = 0x1B then .escape
  else if n = 0x18 || n = 0x1A then .outside
  else
    match s with
    | .outside => .outside
    | .escape =>
      if c = '[' then .command
      else if c = ']' then .systemCommand
      else if c = 'P' || c = 'X' || c = '^' || c = '_' then .deviceText
      else if 0x20 ≤ n && n ≤ 0x2F then .designation
      else if 0x30 ≤ n && n ≤ 0x7E then .outside
      else .escape
    | .designation => if 0x30 ≤ n && n ≤ 0x7E then .outside else .designation
    | .command => if 0x40 ≤ n && n ≤ 0x7E then .outside else .command
    | .systemCommand => if n = 7 then .outside else .systemCommand
    | .deviceText => .deviceText

/-- Whether a character is an ASCII tab or line break. -/
def isLayout (c : Char) : Bool := c = '\t' || c = '\n' || c = '\r' || c.toNat = 12

/-- Whether a character is shown. -/
def shows (s : TerminalState) (c : Char) : Bool :=
  match s with
  | .outside => isLayout c || (32 ≤ c.toNat && c.toNat != 127)
  | .escape | .designation | .command => isLayout c
  | .systemCommand | .deviceText => false

end TerminalState

/-- The characters of a text with whether each is shown; behind one that is, no sequence is open. -/
def mark (s : TerminalState) : List Char → List (Char × Bool)
  | [] => []
  | c :: cs =>
    if s.shows c then (c, true) :: mark .outside cs else (c, false) :: mark (s.next c) cs

/-- The characters that are shown. -/
def plain (cs : List Char) : List Char :=
  (mark .outside cs).filterMap fun (c, shown) => if shown then some c else none

/-- The runs of a marked text that are shown and those that are not, in order. -/
def runs : List (Char × Bool) → List (Bool × List Char)
  | [] => []
  | (c, shown) :: rest =>
    match runs rest with
    | [] => [(shown, [c])]
    | (shown', cs) :: rs =>
      if shown = shown' then (shown, c :: cs) :: rs else (shown, [c]) :: (shown', cs) :: rs

/-- Marking leaves every character in its place. -/
theorem map_fst_mark (s : TerminalState) (cs : List Char) : (mark s cs).map Prod.fst = cs := by
  induction cs generalizing s with
  | nil => rfl
  | cons c cs ih =>
    unfold mark
    split <;> simp [ih]

/-- A text of characters that are shown outside of sequences is shown as it is. -/
theorem plain_of_shows {cs : List Char} (h : ∀ c ∈ cs, TerminalState.outside.shows c = true) :
    plain cs = cs := by
  unfold plain
  induction cs with
  | nil => rfl
  | cons c cs ih =>
    have hc := h c (by simp)
    simp [mark, hc, ih fun d hd => h d (by simp [hd])]

end Statechart.Text
