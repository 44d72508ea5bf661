/-! White space, and the two ways to cut a text at it.

    `trim` drops white space at both ends and `words` gives the maximal runs of other characters.
    White space is the Unicode property of that name, which no later version of the standard has
    changed. -/

namespace Statechart.Text

/-- White space: the ASCII blanks and line breaks, and the separators beyond ASCII. -/
def isBlank (c : Char) : Bool :=
  let n := c.toNat
  (9 ≤ n && n ≤ 13) || n == 0x20 || n == 0x85 || n == 0xA0 || n == 0x1680 ||
    (0x2000 ≤ n && n ≤ 0x200A) || n == 0x2028 || n == 0x2029 || n == 0x202F || n == 0x205F ||
    n == 0x3000

/-- The list without its blanks in front and behind. -/
def trimList (cs : List Char) : List Char :=
  ((cs.dropWhile isBlank).reverse.dropWhile isBlank).reverse

/-- The text without white space at its ends. -/
def trim (s : String) : String := String.ofList (trimList s.toList)

/-- The runs of characters that are not blank, `word` being the run in progress, last character
    first. -/
def wordsFrom (word : List Char) : List Char → List (List Char)
  | [] => if word.isEmpty then [] else [word.reverse]
  | c :: cs =>
    if isBlank c then
      if word.isEmpty then wordsFrom [] cs else word.reverse :: wordsFrom [] cs
    else wordsFrom (c :: word) cs

/-- The white space separated words of a text, none of them empty. -/
def words (s : String) : List String := (wordsFrom [] s.toList).map String.ofList

end Statechart.Text
