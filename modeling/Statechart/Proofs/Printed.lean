import Statechart.Proofs.Grammar
import Statechart.Proofs.Lexing

/-! Writing expressions, and that reading undoes it.

    An expression is written with every operation in parentheses and every path behind the name of the
    whole scope. What is written is derived as a primary of the grammar by induction on the expression,
    and its tokens are legible, so the text is read as the expression again, with any white space
    between the tokens. -/

namespace Statechart

namespace Text

/-! ### Segments behind one another -/

variable {separator : Char} {w cs : List Char}

theorem pieces_of_not_mem (h : separator ∉ w) : pieces separator w = [w] := by
  induction w with
  | nil => rfl
  | cons c w ih =>
    rw [List.mem_cons, not_or] at h
    rw [pieces, if_neg (Ne.symm h.1), ih h.2]

theorem pieces_append_separator (h : separator ∉ w) :
    pieces separator (w ++ separator :: cs) = w :: pieces separator cs := by
  induction w with
  | nil => simp [pieces]
  | cons c w ih =>
    rw [List.mem_cons, not_or] at h
    rw [List.cons_append, pieces, if_neg (Ne.symm h.1), ih h.2]

/-- Texts with a dot in front of each. -/
def dotted (ws : List (List Char)) : List Char := ws.flatMap fun w => '.' :: w

/-- Texts without dots are the pieces of what they are joined to with dots. -/
theorem pieces_dotted {ws : List (List Char)} (hw : '.' ∉ w) (hws : ∀ w ∈ ws, '.' ∉ w) :
    pieces '.' (w ++ dotted ws) = w :: ws := by
  induction ws generalizing w with
  | nil =>
    rw [dotted, List.flatMap_nil, List.append_nil]
    exact pieces_of_not_mem hw
  | cons v ws ih =>
    obtain ⟨hv, hws⟩ := List.forall_mem_cons.1 hws
    rw [dotted, List.flatMap_cons, List.cons_append, pieces_append_separator hw]
    exact congrArg _ (ih hv hws)

end Text

namespace Guard

open Text

variable {w cs : List Char} {c : Char}

/-! ### Paths -/

/-- A character of a segment. -/
def isSegmentChar (c : Char) : Bool := isLetter c || isNumeral c || c = '_'

/-- Whether a text is a segment of a path. -/
def isSegment (s : String) : Bool := s != "" && s.toList.all isSegmentChar

/-- The spelling of a path: the name of the whole scope, and the segments behind it. -/
def pathName (segments : List String) : List Char := "ctx".toList ++ dotted (segments.map String.toList)

theorem isNameChar_of_isSegmentChar (h : isSegmentChar c = true) : isNameChar c = true := by
  rw [isNameChar, Bool.or_eq_true]
  exact .inl h

theorem dot_not_mem_of_isSegment {s : String} (h : isSegment s = true) : '.' ∉ s.toList := by
  rw [isSegment, Bool.and_eq_true, List.all_eq_true] at h
  intro hd
  have := h.2 '.' hd
  revert this
  decide

theorem exists_cons_of_isSegment {s : String} (h : isSegment s = true) :
    ∃ c cs, s.toList = c :: cs := by
  rw [isSegment, Bool.and_eq_true, bne_iff_ne] at h
  exact List.exists_cons_of_ne_nil fun e => h.1 (String.toList_eq_nil_iff.1 e)

theorem hasDoubleDot_append (h : '.' ∉ w) : hasDoubleDot (w ++ cs) = hasDoubleDot cs := by
  induction w with
  | nil => rfl
  | cons c w ih =>
    rw [List.mem_cons, not_or] at h
    rw [← ih h.2, List.cons_append]
    exact hasDoubleDot.eq_2 c (w ++ cs) fun _ e _ => h.1 e.symm

theorem hasDoubleDot_dotted {segments : List String} (h : ∀ s ∈ segments, isSegment s = true) :
    hasDoubleDot (dotted (segments.map String.toList)) = false := by
  induction segments with
  | nil => rfl
  | cons s segments ih =>
    obtain ⟨hs, hrest⟩ := List.forall_mem_cons.1 h
    have hdot := dot_not_mem_of_isSegment hs
    obtain ⟨c, cs, hcs⟩ := exists_cons_of_isSegment hs
    rw [List.map_cons, dotted, List.flatMap_cons, List.cons_append, hasDoubleDot]
    · rw [hasDoubleDot_append hdot]
      exact ih hrest
    · rw [hcs] at hdot ⊢
      rintro _ - ⟨⟩
      exact hdot (by simp)

theorem mem_pathName {segments : List String} (h : c ∈ pathName segments) :
    c ∈ ['c', 't', 'x', '.'] ∨ ∃ s ∈ segments, c ∈ s.toList := by
  rcases List.mem_append.1 h with h | h
  · refine .inl ?_
    revert h
    simp +contextual [or_imp]
  · obtain ⟨w, hw, hc⟩ := List.mem_flatMap.1 h
    obtain ⟨s, hs, rfl⟩ := List.mem_map.1 hw
    rcases List.mem_cons.1 hc with rfl | hc
    · exact .inl (by simp)
    · exact .inr ⟨s, hs, hc⟩

/-- The last character of a path is none of its dots. -/
theorem getLast?_dotted {segments : List String} (h : ∀ s ∈ segments, isSegment s = true) (hne : w ≠ [])
    (hw : '.' ∉ w) : (w ++ dotted (segments.map String.toList)).getLast? ≠ some '.' := by
  induction segments generalizing w with
  | nil =>
    rw [List.map_nil, dotted, List.flatMap_nil, List.append_nil]
    exact fun hlast => hw (List.mem_of_getLast? hlast)
  | cons s segments ih =>
    obtain ⟨hs, hrest⟩ := List.forall_mem_cons.1 h
    obtain ⟨c, cs, hcs⟩ := exists_cons_of_isSegment hs
    have hs' : s.toList ≠ [] := by simp [hcs]
    have hsplit : w ++ dotted ((s :: segments).map String.toList) =
        (w ++ ['.']) ++ (s.toList ++ dotted (segments.map String.toList)) := by
      simp [dotted]
    rw [hsplit, List.getLast?_append,
      List.getLast?_eq_some_getLast (l := s.toList ++ _) (by simp [hs'])]
    rw [Option.some_or, ← List.getLast?_eq_some_getLast]
    exact ih hrest hs' (dot_not_mem_of_isSegment hs)

theorem isName_pathName {segments : List String} (h : ∀ s ∈ segments, isSegment s = true) :
    IsName (pathName segments) where
  first := ⟨'c', rfl, .inl (by decide)⟩
  chars c hc := by
    rcases mem_pathName hc with hc | ⟨s, hs, hc⟩
    · have hall : ['c', 't', 'x', '.'].all isNameChar = true := by decide
      exact List.all_eq_true.1 hall c hc
    · have hall := h s hs
      rw [isSegment, Bool.and_eq_true, List.all_eq_true] at hall
      exact isNameChar_of_isSegmentChar (hall.2 c hc)
  last := getLast?_dotted h (by decide) (by decide)
  apart := by
    rw [pathName, hasDoubleDot_append (by decide)]
    exact hasDoubleDot_dotted h

/-- The segments of a path are read off its spelling. -/
theorem pathSegments_pathName {segments : List String} (h : ∀ s ∈ segments, isSegment s = true)
    (hne : segments ≠ []) : pathSegments (.ofList (pathName segments)) = segments := by
  obtain ⟨s, rest, rfl⟩ := List.exists_cons_of_ne_nil hne
  have hname := isName_pathName h
  have htrim : trimList (pathName (s :: rest)) = pathName (s :: rest) :=
    trimList_of_ends (fun c hc => isBlank_of_isNameChar (hname.chars c (List.mem_of_head? hc)))
      fun c hc => isBlank_of_isNameChar (hname.chars c (List.mem_of_getLast? hc))
  have hdrop : dropPrefix? "ctx.".toList (pathName (s :: rest)) =
      some (s.toList ++ dotted (rest.map String.toList)) := by
    rw [dropPrefix?_eq_some_iff]
    simp [pathName, dotted]
  have hpieces : pieces '.' (s.toList ++ dotted (rest.map String.toList)) =
      (s :: rest).map String.toList := by
    rw [pieces_dotted (dot_not_mem_of_isSegment (h s (by simp)))]
    · rfl
    · intro w hw
      obtain ⟨t, ht, rfl⟩ := List.mem_map.1 hw
      exact dot_not_mem_of_isSegment (h t (by simp [ht]))
  have hfilter : ((s :: rest).map String.toList).filter (fun p => !p.isEmpty) =
      (s :: rest).map String.toList := by
    refine List.filter_eq_self.2 fun w hw => ?_
    obtain ⟨t, ht, rfl⟩ := List.mem_map.1 hw
    obtain ⟨c, cs, hcs⟩ := exists_cons_of_isSegment (h t ht)
    simp [hcs]
  rw [pathSegments]
  simp only [String.toList_ofList, htrim, hdrop, Option.getD_some, hpieces, hfilter, List.map_map]
  simp

/-- No word of the language is a path with segments. -/
theorem pathName_free {segments : List String} (hne : segments ≠ []) :
    String.ofList (pathName segments) ∉ keywords := by
  obtain ⟨s, rest, rfl⟩ := List.exists_cons_of_ne_nil hne
  intro h
  have hall : ∀ k ∈ keywords, '.' ∉ k.toList := by decide
  refine hall _ h ?_
  rw [String.toList_ofList]
  simp [pathName, dotted]

/-! ### Expressions -/

namespace Expr

/-- The tokens of an expression, every operation in parentheses. -/
def tokens : Expr → List Token
  | .literal .null => [.name "null"]
  | .literal (.bool b) => [.name (if b then "true" else "false")]
  | .literal (.number n) => [.number n]
  | .literal (.string s) => [.text s]
  | .path segments => [.name (.ofList (pathName segments))]
  | .not e => .open :: (.operator .not :: e.tokens) ++ [.close]
  | .and l r => .open :: (l.tokens ++ .operator .and :: r.tokens) ++ [.close]
  | .or l r => .open :: (l.tokens ++ .operator .or :: r.tokens) ++ [.close]
  | .compare op l r => .open :: (l.tokens ++ .operator (.comparison op) :: r.tokens) ++ [.close]

/-- An expression as a text, with some white space between the tokens. -/
def print (gap : Nat → Gap) (e : Expr) : String := .ofList (spread gap e.tokens)

/-- Whether an expression can be written: its numbers are signed integers of 64 bits, and the segments
    of its paths are words. -/
def isWritable : Expr → Bool
  | .literal (.number (.whole n _ _)) => decide (n < 9223372036854775808)
  | .literal (.number (.double _)) => false
  | .literal _ => true
  | .path segments => segments.all isSegment
  | .not e => e.isWritable
  | .and l r | .or l r | .compare _ l r => l.isWritable && r.isWritable

end Expr

/-- A word of the language is a name. -/
theorem isName_keyword {s : String} (h : s ∈ ["true", "false", "null"]) : IsName s.toList := by
  simp only [List.mem_cons, List.not_mem_nil, or_false] at h
  rcases h with rfl | rfl | rfl <;>
    exact ⟨⟨_, rfl, .inl (by decide)⟩, List.all_eq_true.1 (by decide), by decide, by decide⟩

/-- Parentheses around legible tokens keep them legible. -/
theorem legible_group {ts : List Token} (h : ∀ t ∈ ts, t.Legible) :
    ∀ t ∈ .open :: ts ++ [.close], t.Legible := by
  intro t ht
  rcases List.mem_cons.1 ht with rfl | ht
  · exact legible_open
  rcases List.mem_append.1 ht with ht | ht
  · exact h t ht
  · rw [List.mem_singleton.1 ht]
    exact legible_close

theorem legible_binary {ts us : List Token} (o : Operator) (hts : ∀ t ∈ ts, t.Legible)
    (hus : ∀ t ∈ us, t.Legible) : ∀ t ∈ ts ++ .operator o :: us, t.Legible := by
  intro t ht
  rcases List.mem_append.1 ht with ht | ht
  · exact hts t ht
  rcases List.mem_cons.1 ht with rfl | ht
  · exact legible_operator o
  · exact hus t ht

/-- The tokens of what can be written are legible. -/
theorem legible_tokens : ∀ {e : Expr}, e.isWritable = true → ∀ t ∈ e.tokens, t.Legible
  | .literal .null, _, t, ht => List.mem_singleton.1 ht ▸ legible_name (isName_keyword (by simp))
  | .literal (.bool b), _, t, ht =>
    List.mem_singleton.1 ht ▸ legible_name (isName_keyword (by cases b <;> simp))
  | .literal (.number (.whole n hlo _)), h, t, ht =>
    List.mem_singleton.1 ht ▸ legible_number hlo (of_decide_eq_true h)
  | .literal (.string s), _, t, ht => List.mem_singleton.1 ht ▸ legible_text s
  | .path segments, h, t, ht => by
    rw [List.mem_singleton.1 ht]
    refine legible_name ?_
    rw [String.toList_ofList]
    exact isName_pathName (List.all_eq_true.1 h)
  | .not e, h, t, ht => by
    refine legible_group (fun u hu => ?_) t ht
    rcases List.mem_cons.1 hu with rfl | hu
    · exact legible_operator .not
    · exact legible_tokens (e := e) h u hu
  | .and l r, h, t, ht => by
    obtain ⟨hl, hr⟩ := Bool.and_eq_true_iff.1 h
    exact legible_group (legible_binary .and (legible_tokens hl) (legible_tokens hr)) t ht
  | .or l r, h, t, ht => by
    obtain ⟨hl, hr⟩ := Bool.and_eq_true_iff.1 h
    exact legible_group (legible_binary .or (legible_tokens hl) (legible_tokens hr)) t ht
  | .compare op l r, h, t, ht => by
    obtain ⟨hl, hr⟩ := Bool.and_eq_true_iff.1 h
    exact legible_group (legible_binary (.comparison op) (legible_tokens hl) (legible_tokens hr)) t ht

/-! ### What is written is derived -/

section

variable {ts us : List Token} {e l r : Expr}

theorem Derives.conjunction_of_unary (h : Derives .unary ts e) : Derives .conjunction ts e := by
  have hall := Derives.conjunction h fun p (hp : p ∈ ([] : List (List Token × Expr))) => by cases hp
  simpa [joined] using hall

theorem Derives.disjunction_of_conjunction (h : Derives .conjunction ts e) :
    Derives .disjunction ts e := by
  have hall := Derives.disjunction h fun p (hp : p ∈ ([] : List (List Token × Expr))) => by cases hp
  simpa [joined] using hall

theorem Derives.conjunction_of_primary (h : Derives .primary ts e) : Derives .conjunction ts e :=
  .conjunction_of_unary (.bare (.single h))

theorem Derives.and_of_primaries (hl : Derives .primary ts l) (hr : Derives .primary us r) :
    Derives .primary (.open :: (ts ++ .operator .and :: us) ++ [.close]) (.and l r) := by
  have hall := @Derives.conjunction ts l [(us, r)] (.bare (.single hl))
    fun p hp => List.mem_singleton.1 hp ▸ .bare (.single hr)
  exact .group (.disjunction_of_conjunction (by simpa [joined] using hall))

theorem Derives.or_of_primaries (hl : Derives .primary ts l) (hr : Derives .primary us r) :
    Derives .primary (.open :: (ts ++ .operator .or :: us) ++ [.close]) (.or l r) := by
  have hall := @Derives.disjunction ts l [(us, r)] hl.conjunction_of_primary
    fun p hp => List.mem_singleton.1 hp ▸ hr.conjunction_of_primary
  exact .group (by simpa [joined] using hall)

/-- A unary phrase in parentheses is a primary. -/
theorem Derives.primary_of_unary (h : Derives .unary ts e) :
    Derives .primary (.open :: ts ++ [.close]) e :=
  .group (.disjunction_of_conjunction (.conjunction_of_unary h))

end

/-- What can be written is derived as a primary, as the expression that it is. -/
theorem derives_tokens : ∀ {e : Expr}, e.isWritable = true → Derives .primary e.tokens e
  | .literal .null, _ => .null
  | .literal (.bool true), _ => .yes
  | .literal (.bool false), _ => .no
  | .literal (.number n), _ => .number n
  | .literal (.string s), _ => .text s
  | .path [], _ => .scope
  | .path (s :: rest), h => by
    have hpath := Derives.path (pathName_free (List.cons_ne_nil s rest))
    rwa [pathSegments_pathName (List.all_eq_true.1 h) (List.cons_ne_nil s rest)] at hpath
  | .not e, h => .primary_of_unary (.negation (.bare (.single (derives_tokens (e := e) h))))
  | .and l r, h => by
    obtain ⟨hl, hr⟩ := Bool.and_eq_true_iff.1 h
    exact (derives_tokens hl).and_of_primaries (derives_tokens hr)
  | .or l r, h => by
    obtain ⟨hl, hr⟩ := Bool.and_eq_true_iff.1 h
    exact (derives_tokens hl).or_of_primaries (derives_tokens hr)
  | .compare op l r, h => by
    obtain ⟨hl, hr⟩ := Bool.and_eq_true_iff.1 h
    exact .primary_of_unary (.bare (.comparison (derives_tokens hl) (derives_tokens hr)))

/-- Primaries are read as they are derived. -/
theorem parseTokens_of_primary {ts : List Token} {e : Expr} (h : Derives .primary ts e) :
    parseTokens ts = .ok e := by
  have hall := h.conjunction_of_primary.disjunction_of_conjunction
  have hneed : Phrase.disjunction.need ts.length ≤ 8 * ts.length + 8 := by
    simp only [Phrase.need, Phrase.rank]
    omega
  have hread := hall.complete hneed (Phrase.ends_nil _)
  rw [List.append_nil] at hread
  simp only [Phrase.parse] at hread
  rw [parseTokens, hread]

/-- Reading undoes writing: what can be written is read as the expression that it was, whatever white
    space stands between the tokens. -/
theorem parse_print (gap : Nat → Gap) {e : Expr} (h : e.isWritable = true) :
    parse (e.print gap) = .ok e := by
  have hlegible := legible_tokens h
  have hderives := derives_tokens h
  have htokens : tokens (spread gap e.tokens) = .ok e.tokens := tokensFrom_spread gap hlegible 0
  rw [parse, Expr.print, String.toList_ofList, trimList_spread gap hlegible]
  split
  · rename_i hnil
    rw [hnil] at htokens
    rw [← Except.ok.inj htokens] at hderives
    cases hderives
  · rw [htokens]
    exact parseTokens_of_primary hderives

/-- A path of words that mean something else alone, a text with both characters that are escaped, and the
    least number. -/
theorem parse_print_words :
    parse "( ( ctx.true.ctx == \"a\\\"\\\\\" ) && ( ! ( ctx < -9223372036854775808 ) ) )" =
      .ok (.and (.compare .eq (.path ["true", "ctx"]) (.literal (.string "a\"\\")))
        (.not (.compare .lt (.path [])
          (.literal (.number (.whole (-9223372036854775808) (by decide) (by decide))))))) := by
  have hread := parse_print (fun _ => ⟨[' '], by decide, by simp; decide⟩)
    (e := .and (.compare .eq (.path ["true", "ctx"]) (.literal (.string "a\"\\")))
      (.not (.compare .lt (.path [])
        (.literal (.number (.whole (-9223372036854775808) (by decide) (by decide)))))))
    (by decide +kernel)
  rw [← hread]
  exact congrArg parse (by decide +kernel)

end Guard
end Statechart
