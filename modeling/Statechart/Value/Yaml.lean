import Statechart.Value.Basic

/-! YAML, as far as charts and settings need it.

    Which texts are YAML and what they say is left open: everything that reads such a text is given a way
    to do so. A scalar without quotes is a text until someone asks for more, so a text is read in three
    ways: for values of any kind, for texts, and for integers and words. -/

namespace Statechart

/-- A way to read and to write YAML: what a text says if every scalar decides what it is, if every scalar
    is its characters, and if only integers and words are more than their characters; and a text for a
    value. A text that cannot be read in some way gives nothing. -/
structure Yaml where
  document? : (text : String) → Option Value
  texts? : (text : String) → Option Value
  integers? : (text : String) → Option Value
  write : Value → String

end Statechart
