import Statechart.Text.Blank
import Statechart.Text.Terminal

/-! Breaking lines that are too long.

    A line is broken in front of the first word that would end beyond the limit, unless it is the first
    word of all; blanks in front of the break are dropped, and a line that begins with blanks goes on
    with the same ones. What a terminal does not show takes no room. -/

namespace Statechart.Text

/-- The lines of a text, each with the line break at its end. -/
def brokenLines : List Char → List (List Char)
  | [] => []
  | c :: cs =>
    if c = '\n' then [c] :: brokenLines cs
    else
      match brokenLines cs with
      | [] => [[c]]
      | l :: ls => (c :: l) :: ls

/-- The words of a line, each with the spaces behind it; spaces in front of all are a word too. -/
def spacedWords : List Char → List (List Char)
  | [] => []
  | c :: cs =>
    match spacedWords cs with
    | [] => [[c]]
    | w :: ws => if c = ' ' && w.head? != some ' ' then [c] :: w :: ws else (c :: w) :: ws

/-- The list without the blanks at its end. -/
def trimEnd (cs : List Char) : List Char := (cs.reverse.dropWhile isBlank).reverse

/-- How many columns a word takes: one for each character, but none from an ASCII control on to the
    next `m`. -/
def columnsFrom (hidden : Bool) : List Char → Nat
  | [] => 0
  | c :: cs =>
    if c.toNat < 32 || c.toNat = 127 then columnsFrom true cs
    else if hidden then columnsFrom (c != 'm') cs
    else columnsFrom false cs + 1

/-- How many bytes a list of characters takes. -/
def byteCount (cs : List Char) : Nat := cs.foldl (fun n c => n + c.utf8Size) 0

/-- How far a line has come, and what its continuations begin with once that is known. -/
structure LineState where
  width : Nat
  indent : Option (List Char)

namespace LineState

/-- The state at the start of a line. -/
def start : LineState := ⟨0, none⟩

/-- Puts words behind a line, `first` saying that no word has been put yet, `out` holding what has been
    put, the last piece first. -/
def put (limit : Nat) (first : Bool) (s : LineState) (out : List (List Char)) :
    List (List Char) → LineState × List Char
  | [] => (s, out.reverse.flatten)
  | w :: ws =>
    let word := trimEnd w
    let columns := columnsFrom false word
    let spare := byteCount (w.drop word.length)
    if first && 0 < columns then
      put limit false { s with width := s.width + columns + spare } (w :: out) ws
    else if limit < s.width + columns then
      let indent := s.indent.getD []
      let before :=
        match out with
        | [] => []
        | last :: out => trimEnd last :: out
      put limit first { s with width := byteCount indent + columns + spare }
        (w :: indent :: ['\n'] :: before) ws
    else put limit first { s with width := s.width + columns + spare } (w :: out) ws

/-- Puts one line, or the rest of one, behind what stands in it. -/
def putLine (limit : Nat) (s : LineState) (line : List Char) : LineState × List Char :=
  let words := spacedWords line
  match s.indent, words with
  | none, w :: _ =>
    put limit true { s with indent := some (if w.all isBlank then w else []) } [] words
  | _, _ => put limit false s [] words

/-- Puts a text behind a line. -/
def putText (limit : Nat) (s : LineState) (text : List Char) : LineState × List Char :=
  match brokenLines text with
  | [] => (s, [])
  | line :: lines =>
    lines.foldl
      (fun (_, out) line =>
        let (s, more) := putLine limit start line
        (s, out ++ more))
      (putLine limit s line)

/-- Puts the shown runs of a text behind a line and leaves the others where they are. -/
def putRuns (limit : Nat) (s : LineState) : List (Bool × List Char) → List Char
  | [] => []
  | (false, cs) :: runs => cs ++ putRuns limit s runs
  | (true, cs) :: runs =>
    let (s, out) := putText limit s cs
    out ++ putRuns limit s runs

end LineState

/-- The text with lines of at most `limit` columns, words that take more apart. -/
def wrap (limit : Nat) (cs : List Char) : List Char :=
  LineState.putRuns limit .start (runs (mark .outside cs))

/-- The text with spaces behind every line break. -/
def hang (spaces : Nat) (cs : List Char) : List Char :=
  cs.flatMap fun c => if c = '\n' then c :: List.replicate spaces ' ' else [c]

/-- Nothing is lost between the lines. -/
theorem flatten_brokenLines (cs : List Char) : (brokenLines cs).flatten = cs := by
  induction cs with
  | nil => rfl
  | cons c cs ih =>
    unfold brokenLines
    split
    · simp [ih]
    · split
      · rename_i h
        rw [h] at ih
        simp [← ih]
      · rename_i h
        rw [h] at ih
        simp [← ih]

/-- Nothing is lost between the words. -/
theorem flatten_spacedWords (cs : List Char) : (spacedWords cs).flatten = cs := by
  induction cs with
  | nil => rfl
  | cons c cs ih =>
    unfold spacedWords
    split
    · rename_i h
      rw [h] at ih
      simp [← ih]
    · rename_i h
      rw [h] at ih
      split <;> simp [← ih]

end Statechart.Text
