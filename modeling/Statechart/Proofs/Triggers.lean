import Mathlib.Data.List.Infix
import Statechart.Event.Trigger

/-! Which events a trigger answers to, read in segments.

    A dotted name is determined by its segments, since joining them gives it back. So one name is
    another one, or goes on from it past a dot, exactly if the segments of the other begin its own: a
    comparison character by character with a look at what follows decides about whole segments, also
    where segments are empty. -/

namespace Statechart

namespace Text

variable {separator : Char} {start cs word : List Char} {xs ys : List (List Char)}

/-! ### Words and segments as the pieces of a split -/

/-- Words are what lies between blanks, empty pieces left out. -/
theorem wordsFrom_eq (h : ∀ c ∈ word, isBlank c = false) :
    wordsFrom word cs = ((word.reverse ++ cs).splitOnP isBlank).filter (· ≠ []) := by
  have hword : ∀ c ∈ word.reverse, isBlank c = false := fun c hc => h c (List.mem_reverse.1 hc)
  induction cs generalizing word with
  | nil =>
    rw [List.append_nil, List.splitOnP_eq_singleton hword, wordsFrom]
    cases word <;> simp
  | cons c cs ih =>
    rw [wordsFrom]
    by_cases hc : isBlank c = true
    · have hrest : wordsFrom [] cs = (cs.splitOnP isBlank).filter (· ≠ []) := ih nofun nofun
      rw [if_pos hc, hrest, List.splitOnP_append_cons_of_forall_mem hword c hc, List.filter_cons]
      cases word <;> simp
    · have hlonger : ∀ d ∈ c :: word, isBlank d = false := by
        rintro d (_ | ⟨_, hd⟩)
        · exact Bool.eq_false_iff.2 hc
        · exact h d hd
      rw [if_neg hc, ih hlonger fun d hd => hlonger d (List.mem_reverse.1 hd)]
      simp

/-- Segments are the pieces between separators, empty ones included. -/
theorem pieces_eq_splitOn (separator : Char) (cs : List Char) :
    pieces separator cs = cs.splitOn separator := by
  induction cs with
  | nil => rfl
  | cons c cs ih =>
    rw [pieces, ih, List.splitOn_cons_eq_if_modifyHead]
    simp only [beq_iff_eq]
    refine if_congr Iff.rfl rfl ?_
    cases hpieces : cs.splitOn separator with
    | nil => exact absurd (ih.trans hpieces) (pieces_ne_nil separator cs)
    | cons => rfl

/-- Dropping a character at the end, if it is there, is dropping a suffix. -/
theorem dropLast_eq_dropSuffix? (c : Char) (cs : List Char) :
    dropLast c cs = (cs.dropSuffix? [c]).getD cs := by
  unfold dropLast
  by_cases h : cs.getLast? = some c
  · obtain ⟨front, rfl⟩ := List.getLast?_eq_some_iff.1 h
    have hdrop : (front ++ [c]).dropSuffix? [c] = some front :=
      List.dropSuffix?_eq_some_iff.2 ⟨[c], rfl, by simp⟩
    rw [if_pos h, hdrop, Option.getD_some, List.dropLast_concat]
  · have hdrop : cs.dropSuffix? [c] = none := by
      refine Option.eq_none_iff_forall_ne_some.2 fun front hfront => h ?_
      obtain ⟨last, rfl, hlast⟩ := List.dropSuffix?_eq_some_iff.1 hfront
      rw [eq_of_beq hlast, List.getLast?_concat]
    rw [if_neg h, hdrop, Option.getD_none]

/-! ### Segments of one name that begin those of another -/

theorem intercalate_append (hx : xs ≠ []) (hy : ys ≠ []) :
    [separator].intercalate (xs ++ ys) =
      [separator].intercalate xs ++ separator :: [separator].intercalate ys := by
  induction xs with
  | nil => exact absurd rfl hx
  | cons x xs ih =>
    by_cases hnil : xs = []
    · rw [hnil, List.singleton_append, List.intercalate_cons_of_ne_nil hy, List.intercalate_singleton]
      simp
    · rw [List.cons_append, List.intercalate_cons_of_ne_nil (List.append_ne_nil_of_left_ne_nil hnil ys),
        ih hnil, List.intercalate_cons_of_ne_nil hnil]
      simp

/-- The segments of a text begin those of another if that one is the text, or goes on past a
    separator. -/
theorem pieces_prefix_iff : pieces separator start <+: pieces separator cs ↔
    cs = start ∨ ∃ more, cs = start ++ separator :: more := by
  have hjoin (w : List Char) : [separator].intercalate (pieces separator w) = w := by
    rw [pieces_eq_splitOn, List.intercalate_splitOn]
  constructor
  · rintro ⟨rest, hrest⟩
    have hcs : cs = [separator].intercalate (pieces separator start ++ rest) := by rw [hrest, hjoin]
    by_cases hnil : rest = []
    · rw [hnil, List.append_nil, hjoin] at hcs
      exact .inl hcs
    · rw [intercalate_append (pieces_ne_nil separator start) hnil, hjoin] at hcs
      exact .inr ⟨_, hcs⟩
  · rintro (rfl | ⟨more, rfl⟩)
    · exact List.prefix_rfl
    · simp only [pieces_eq_splitOn, List.splitOn_append_cons_self]
      exact List.prefix_append _ _

/-- A text continues two others behind each other if what follows the first continues the second. -/
theorem continuesPastDot_append {more : List Char} : continuesPastDot (start ++ more) cs = true ↔
    ∃ rest, dropPrefix? start cs = some rest ∧ continuesPastDot more rest = true := by
  simp only [continuesPastDot_iff, dropPrefix?_eq_some_iff, List.append_assoc]
  constructor
  · rintro (rfl | ⟨ending, rfl⟩)
    · exact ⟨_, rfl, .inl rfl⟩
    · exact ⟨_, rfl, .inr ⟨_, rfl⟩⟩
  · rintro ⟨_, rfl, rfl | ⟨ending, rfl⟩⟩
    · exact .inl rfl
    · exact .inr ⟨_, rfl⟩

/-- One name continues another past a dot exactly if the segments of the other begin its own. -/
theorem segments_prefix_iff {d name : String} :
    segments d <+: segments name ↔ continuesPastDot d.toList name.toList = true := by
  rw [continuesPastDot_iff, ← pieces_prefix_iff, segments, segments]
  exact List.prefix_map_iff_of_injective fun _ _ => String.ofList_inj.1

end Text

namespace Trigger

/-- The white space separated tokens of a text. -/
def tokens (line : String) : List String :=
  ((line.toList.splitOnP Text.isBlank).filter (· ≠ [])).map String.ofList

/-- A token without one star and then one dot at its end. -/
def bare (token : String) : String :=
  let unstarred := (token.toList.dropSuffix? ['*']).getD token.toList
  String.ofList ((unstarred.dropSuffix? ['.']).getD unstarred)

variable {line name : String} {t : Trigger}

theorem mem_tokens {w : String} : w ∈ tokens line ↔ w.toList ∈ Text.wordsFrom [] line.toList := by
  have hwords : Text.wordsFrom [] line.toList =
      (line.toList.splitOnP Text.isBlank).filter (· ≠ []) := Text.wordsFrom_eq (by simp)
  rw [tokens, hwords, List.mem_map]
  constructor
  · rintro ⟨v, hv, rfl⟩
    rwa [String.toList_ofList]
  · exact fun h => ⟨_, h, String.ofList_toList⟩

theorem bare_eq (w : String) : bare w = String.ofList (strip w.toList) := by
  simp only [bare, strip, Text.dropLast_eq_dropSuffix?]

theorem bare_ne_empty {w : String} : bare w ≠ "" ↔ strip w.toList ≠ [] := by
  rw [bare_eq, ← String.ofList_nil, Ne, String.ofList_inj]

theorem all_ofText : (ofText line).all = true ↔ "*" ∈ tokens line := by
  rw [mem_tokens, ofText, List.contains_iff_mem]
  rfl

/-- Descriptors are what is left of the tokens, if anything is. -/
theorem mem_descriptors_ofText {d : String} :
    d ∈ (ofText line).descriptors ↔ ∃ w ∈ tokens line, bare w ≠ "" ∧ bare w = d := by
  simp only [ofText, List.mem_filterMap, List.mem_map, List.mem_filter, bare_ne_empty]
  constructor
  · rintro ⟨_, ⟨w, ⟨hw, -⟩, rfl⟩, hd⟩
    split at hd
    · cases hd
    · rename_i hne
      refine ⟨.ofList w, mem_tokens.2 (by rwa [String.toList_ofList]), ?_, ?_⟩
      · simpa using hne
      · simpa [bare_eq] using hd
  · rintro ⟨w, hw, hne, rfl⟩
    refine ⟨strip w.toList, ⟨w.toList, ⟨mem_tokens.1 hw, ?_⟩, rfl⟩, ?_⟩
    · -- nothing is left of a star alone
      rw [bne_iff_ne]
      rintro hstar
      exact hne (by rw [hstar]; rfl)
    · simp [hne, bare_eq]

/-- A trigger answers to all events, or to those whose names begin with the segments of a descriptor. -/
theorem answers_some_iff : t.answers (some name) = true ↔
    t.all = true ∨ ∃ d ∈ t.descriptors, Text.segments d <+: Text.segments name := by
  rw [answers, Bool.or_eq_true, List.any_eq_true]
  simp only [Text.segments_prefix_iff]

theorem answers_none_iff : t.answers none = true ↔ t.all = false ∧ t.descriptors = [] := by
  rw [answers_none, isEventless, Bool.and_eq_true, List.isEmpty_iff, Bool.not_eq_true', and_comm]

/-- Eventless is who answers to no event. -/
theorem answers_none_iff_forall : t.answers none = true ↔ ∀ name, t.answers (some name) = false := by
  constructor
  · intro h name
    refine Bool.eq_false_iff.2 fun hname => ?_
    rw [answers_none, isEventless_eq_false_of_answers hname] at h
    cases h
  · intro h
    rw [answers_none_iff]
    refine ⟨Bool.eq_false_iff.2 fun hall => ?_, List.eq_nil_iff_forall_not_mem.2 fun d hd => ?_⟩
    · exact Bool.eq_false_iff.1 (h "") (answers_some_iff.2 (.inl hall))
    · exact Bool.eq_false_iff.1 (h d) (answers_some_iff.2 (.inr ⟨d, hd, List.prefix_rfl⟩))

/-- An event reports a process complete if the segments of `done.invoke.` and the name of the process
    begin those of the event. -/
theorem reportsCompletion_iff_segments {id : String} : reportsCompletion id name = true ↔
    Text.segments ("done.invoke." ++ id) <+: Text.segments name := by
  rw [Text.segments_prefix_iff, String.toList_append, Text.continuesPastDot_append, reportsCompletion]
  cases Text.dropPrefix? "done.invoke.".toList name.toList <;> simp

/-- A transition whose events are given as a text answers to an event exactly if one of the tokens of
    the text is a star, or is not empty without its star and dot at the end and has segments then that
    begin those of the event. It answers to no event, and is taken without one, exactly if none of the
    tokens is a star and nothing is left of any. And an event reports a process complete exactly if the
    segments of `done.invoke.` and the name of the process begin its own. -/
theorem answers_by_segments (line : String) :
    (∀ name, (ofText line).answers (some name) = true ↔ ∃ w ∈ tokens line,
      w = "*" ∨ bare w ≠ "" ∧ Text.segments (bare w) <+: Text.segments name) ∧
    ((ofText line).answers none = true ↔ ∀ w ∈ tokens line, w ≠ "*" ∧ bare w = "") ∧
    ((ofText line).answers none = true ↔ ∀ name, (ofText line).answers (some name) = false) ∧
    ∀ id name, reportsCompletion id name = true ↔
      Text.segments ("done.invoke." ++ id) <+: Text.segments name := by
  refine ⟨fun name => ?_, ?_, answers_none_iff_forall, fun _ _ => reportsCompletion_iff_segments⟩
  · rw [answers_some_iff, all_ofText]
    simp only [mem_descriptors_ofText]
    constructor
    · rintro (h | ⟨_, ⟨w, hw, hne, rfl⟩, h⟩)
      · exact ⟨_, h, .inl rfl⟩
      · exact ⟨w, hw, .inr ⟨hne, h⟩⟩
    · rintro ⟨w, hw, rfl | ⟨hne, h⟩⟩
      · exact .inl hw
      · exact .inr ⟨_, ⟨w, hw, hne, rfl⟩, h⟩
  · rw [answers_none_iff, ← Bool.not_eq_true, all_ofText, List.eq_nil_iff_forall_not_mem]
    simp only [mem_descriptors_ofText]
    constructor
    · rintro ⟨hall, hnone⟩ w hw
      exact ⟨fun h => hall (h ▸ hw), not_not.1 fun hne => hnone _ ⟨w, hw, hne, rfl⟩⟩
    · intro h
      refine ⟨fun hall => (h _ hall).1 rfl, ?_⟩
      rintro _ ⟨w, hw, hne, rfl⟩
      exact hne (h w hw).2

/-- One dot is taken off, so the descriptor keeps an empty segment. -/
example : (ofText "bar..").answers (some "bar..x") = true ∧
    (ofText "bar..").answers (some "bar.x") = false := by decide +kernel

end Trigger
end Statechart
