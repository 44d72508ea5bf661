import Statechart.Guard.Token

/-! Spelling tokens and reading them off again.

    A token has a spelling: texts stand between double quotes with a backslash before what would end
    them, numbers are written in decimal, everything else as it is. White space ends every token, so a
    token is legible if the lexer reads it off its spelling in front of white space or the end, and a
    list of legible tokens is read off their spellings with any white space between them. -/

namespace Statechart

namespace Text

/-- The characters that are white space. -/
def blankChars : List Char :=
  [9, 10, 11, 12, 13, 0x20, 0x85, 0xA0, 0x1680, 0x2000, 0x2001, 0x2002, 0x2003, 0x2004, 0x2005, 0x2006,
    0x2007, 0x2008, 0x2009, 0x200A, 0x2028, 0x2029, 0x202F, 0x205F, 0x3000].map Char.ofNat

theorem mem_blankChars {c : Char} (h : isBlank c = true) : c ∈ blankChars := by
  refine List.mem_map.2 ⟨c.toNat, ?_, Char.ofNat_toNat c⟩
  simp only [isBlank, Bool.or_eq_true, Bool.and_eq_true, decide_eq_true_eq, beq_iff_eq] at h
  simp only [List.mem_cons, List.not_mem_nil, or_false]
  omega

/-- White space is no part of a name, of a number or of an operator. -/
theorem apart_of_isBlank {c : Char} (h : isBlank c = true) : Guard.isNameChar c = false ∧
    isDigit c = false ∧ c ≠ '.' ∧ c ≠ '=' := by
  have hall : blankChars.all (fun c => !Guard.isNameChar c && !isDigit c && c != '.' && c != '=') := by
    simp only [Guard.isNameChar, isLetter, isNumeral, inRanges, ← Array.any_toList]
    decide +kernel
  simpa [and_assoc] using List.all_eq_true.1 hall c (mem_blankChars h)

theorem isBlank_of_isNameChar {c : Char} (h : Guard.isNameChar c = true) : isBlank c = false :=
  Bool.eq_false_iff.2 fun hb => by
    rw [(apart_of_isBlank hb).1] at h
    cases h

/-- A text without white space at its ends is not trimmed. -/
theorem trimList_of_ends {cs : List Char} (hhead : ∀ c ∈ cs.head?, isBlank c = false)
    (hlast : ∀ c ∈ cs.getLast?, isBlank c = false) : trimList cs = cs := by
  have keep {ds : List Char} (h : ∀ c ∈ ds.head?, isBlank c = false) : ds.dropWhile isBlank = ds := by
    cases ds with
    | nil => rfl
    | cons d ds => rw [List.dropWhile_cons_of_neg (by simp [h d rfl])]
  rw [trimList, keep hhead, keep (by rwa [List.head?_reverse]), List.reverse_reverse]

/-! ### Decimal digits -/

theorem isDigit_of_mem_toDigits {n : Nat} {c : Char} (h : c ∈ Nat.toDigits 10 n) : isDigit c = true := by
  have hd := Nat.isDigit_of_mem_toDigits (by decide) (by decide) h
  rw [Char.isDigit, Bool.and_eq_true, decide_eq_true_eq, decide_eq_true_eq] at hd
  simp only [isDigit, Bool.and_eq_true, decide_eq_true_eq]
  exact hd

/-- No digit is a letter. -/
theorem isLetter_of_isDigit {c : Char} (h : isDigit c = true) : isLetter c = false := by
  rw [isDigit, Bool.and_eq_true, decide_eq_true_eq, decide_eq_true_eq] at h
  obtain ⟨hlo, hhi⟩ := h
  have hlo : 48 ≤ c.toNat := hlo
  have hhi : c.toNat ≤ 57 := hhi
  have hsmall : ¬ 'a' ≤ c := fun h : 97 ≤ c.toNat => by omega
  have hcapital : ¬ 'A' ≤ c := fun h : 65 ≤ c.toNat => by omega
  have hbeyond : ¬128 ≤ c.toNat := by omega
  simp [isLetter, hsmall, hcapital, hbeyond]

/-- The decimal digits of a number write the number. -/
theorem decimalOf_toDigits (n : Nat) : decimalOf (Nat.toDigits 10 n) = n := by
  have hstep : pushDigit = fun n c => 10 * n + (c.toNat - '0'.toNat) := by
    funext n c
    rw [pushDigit, Nat.mul_comm]
    rfl
  have h := Nat.ofDigitChars_toDigits (b := 10) (n := n) (by decide) (by decide)
  rwa [Nat.ofDigitChars_eq_foldl, ← hstep] at h

end Text

namespace Guard

open Text

/-- A character of a text as it stands between double quotes. -/
def escaped (c : Char) : List Char := if c = '"' ∨ c = '\\' then ['\\', c] else [c]

/-- The spelling of a token. -/
def Token.spelling : Token → List Char
  | .name s => s.toList
  | .text s => '"' :: (s.toList.flatMap escaped ++ ['"'])
  | .number n => n.text.toList
  | .operator o => o.symbol.toList
  | .open => ['(']
  | .close => [')']

/-- Whether a text is at its end or goes on with white space. -/
def Breaks (rest : List Char) : Prop := ∀ c ∈ rest.head?, isBlank c = true

/-- Whether a token is read off its spelling wherever that stands in front of white space. -/
structure Token.Legible (t : Token) : Prop where
  head : ∃ c cs, t.spelling = c :: cs ∧ isBlank c = false ∧
    ∀ position rest, Breaks rest → lexeme position c (cs ++ rest) = .ok (t, cs.length)
  last : ∀ c ∈ t.spelling.getLast?, isBlank c = false

variable {rest cs : List Char} {c : Char}

/-! ### Parentheses and operators -/

theorem legible_open : Token.open.Legible where
  head := ⟨'(', [], rfl, rfl, fun _ _ _ => rfl⟩
  last := by simp [Token.spelling]; decide

theorem legible_close : Token.close.Legible where
  head := ⟨')', [], rfl, rfl, fun _ _ _ => rfl⟩
  last := by simp [Token.spelling]; decide

/-- An operator that could go on with an equals sign ends in front of white space. -/
theorem ne_equals_of_breaks (h : Breaks rest) : ∀ more, rest ≠ '=' :: more := by
  rintro more rfl
  exact (apart_of_isBlank (h '=' rfl)).2.2.2 rfl

/-- The characters that begin an operator. -/
def operatorChars : List Char := ['=', '!', '>', '<', '&', '|']

/-- The operator is read off its symbol in front of white space. -/
theorem operator?_symbol (o : Operator) : ∃ c ∈ operatorChars, ∃ cs, o.symbol.toList = c :: cs ∧
    ∀ rest, Breaks rest → operator? c (cs ++ rest) = some (o, cs.length) := by
  cases o with
  | comparison op =>
    cases op with
    | eq => exact ⟨'=', by decide, ['='], rfl, fun _ _ => rfl⟩
    | ne => exact ⟨'!', by decide, ['='], rfl, fun _ _ => rfl⟩
    | ge => exact ⟨'>', by decide, ['='], rfl, fun _ _ => rfl⟩
    | le => exact ⟨'<', by decide, ['='], rfl, fun _ _ => rfl⟩
    | gt =>
      refine ⟨'>', by decide, [], rfl, fun rest h => ?_⟩
      have hne := ne_equals_of_breaks h
      unfold operator?
      split <;> simp_all
    | lt =>
      refine ⟨'<', by decide, [], rfl, fun rest h => ?_⟩
      have hne := ne_equals_of_breaks h
      unfold operator?
      split <;> simp_all
  | and => exact ⟨'&', by decide, ['&'], rfl, fun _ _ => rfl⟩
  | or => exact ⟨'|', by decide, ['|'], rfl, fun _ _ => rfl⟩
  | not =>
    refine ⟨'!', by decide, [], rfl, fun rest h => ?_⟩
    have hne := ne_equals_of_breaks h
    unfold operator?
    split <;> simp_all

/-- Nothing but an operator begins with one of its characters. -/
theorem lexeme_operator (hc : c ∈ operatorChars) (position : Nat) {o : Operator} {n : Nat}
    (h : operator? c rest = some (o, n)) : lexeme position c rest = .ok (.operator o, n) := by
  simp only [operatorChars, List.mem_cons, List.not_mem_nil, or_false] at hc
  rcases hc with rfl | rfl | rfl | rfl | rfl | rfl <;>
    rw [lexeme, if_neg (by decide), if_neg (by decide), if_neg (by decide),
      if_neg fun h => absurd h.1 (by decide), if_neg (by decide), if_neg (by decide), h]

theorem isBlank_of_mem_symbol {o : Operator} (h : c ∈ o.symbol.toList) : isBlank c = false := by
  have hall : o.symbol.toList.all (fun c => !isBlank c) = true := by
    cases o with
    | comparison op => cases op <;> decide
    | and | or | not => decide
  simpa using List.all_eq_true.1 hall c h

theorem legible_operator (o : Operator) : (Token.operator o).Legible where
  head := by
    obtain ⟨c, hc, cs, hs, ho⟩ := operator?_symbol o
    have hblank : isBlank c = false := isBlank_of_mem_symbol (o := o) (by simp [hs])
    exact ⟨c, cs, hs, hblank, fun position rest h => lexeme_operator hc position (ho rest h)⟩
  last c hc := isBlank_of_mem_symbol (List.mem_of_getLast? hc)

/-! ### Texts -/

/-- A text is scanned up to its closing quote and no backslash that was put before a character stays. -/
theorem scanText_escaped (cs rest : List Char) :
    scanText '"' (cs.flatMap escaped ++ '"' :: rest) = some (cs, (cs.flatMap escaped).length + 1) := by
  induction cs with
  | nil => simp [scanText]
  | cons c cs ih =>
    rw [List.flatMap_cons, List.append_assoc, escaped]
    split
    · simp [scanText, ih]
    · rename_i h
      obtain ⟨hquote, hslash⟩ := not_or.1 h
      rw [List.cons_append, List.nil_append]
      unfold scanText
      split
      all_goals simp_all

theorem legible_text (s : String) : (Token.text s).Legible where
  head := by
    refine ⟨'"', _, rfl, by decide, fun position rest _ => ?_⟩
    rw [lexeme, if_neg (by decide), if_neg (by decide), if_pos (.inl rfl), List.append_assoc,
      List.singleton_append, scanText_escaped]
    simp
  last c hc := by
    rw [Token.spelling, ← List.cons_append, List.getLast?_concat, Option.mem_some_iff] at hc
    subst hc
    decide

/-! ### Numbers -/

theorem scanDigits_append (hcs : ∀ c ∈ cs, isDigit c = true) (h : Breaks rest) :
    scanDigits false (cs ++ rest) = cs := by
  induction cs with
  | nil =>
    cases rest with
    | nil => rfl
    | cons c rest =>
      obtain ⟨-, hdigit, hpoint, -⟩ := apart_of_isBlank (h c rfl)
      simp [scanDigits, hdigit, hpoint]
  | cons c cs ih =>
    rw [List.cons_append, scanDigits, if_pos (hcs c (by simp)),
      ih fun c hc => hcs c (List.mem_cons_of_mem _ hc)]

/-- Decimal digits are read as the number that they write, if that is a signed integer of 64 bits. -/
theorem numberToken_toDigits (negative : Bool) (m extra : Nat) {n : Int}
    (hn : n = if negative then -(m : Int) else m) (hlo : -9223372036854775808 ≤ n)
    (hhi : n < 9223372036854775808) : numberToken negative (Nat.toDigits 10 m) extra =
      .ok (.number (.whole n hlo (by omega)), extra) := by
  have hdigits : ∀ c ∈ Nat.toDigits 10 m, isDigit c = true := fun c => isDigit_of_mem_toDigits
  have hpoint : (Nat.toDigits 10 m).contains '.' = false := by
    refine Bool.eq_false_iff.2 fun h => ?_
    have := hdigits '.' (List.contains_iff_mem.1 h)
    revert this
    decide
  rw [numberToken, literalNumber?]
  simp only [List.filter_eq_self.2 hdigits, decimalOf_toDigits, hpoint, Bool.false_eq_true, if_false,
    ← hn, hlo, hhi, and_self, if_true]
  rw [Number.ofInt?, Number.ofWord?, dif_pos ⟨hlo, by omega⟩]

/-- A number in decimal, its sign in front. -/
def decimal (n : Int) : List Char :=
  if 0 ≤ n then Nat.toDigits 10 n.toNat else '-' :: Nat.toDigits 10 (-n).toNat

theorem toList_toString (n : Int) : (toString n).toList = decimal n := by
  have h : (toString n).toList = n.repr.toList := rfl
  rw [h, Int.repr_eq_if, decimal]
  split
  · exact Nat.toList_repr
  · rw [String.toList_append, Nat.toList_repr]
    rfl

/-- A digit begins nothing but a number. -/
theorem lexeme_digit (hc : isDigit c = true) (position : Nat) :
    lexeme position c rest =
      numberToken false (scanDigits false (c :: rest)) ((scanDigits false (c :: rest)).length - 1) := by
  have other {d : Char} (hd : isDigit d = false) : ¬c = d := by
    rintro rfl
    rw [hc] at hd
    cases hd
  rw [lexeme, if_neg (other (by decide)), if_neg (other (by decide)),
    if_neg (not_or.2 ⟨other (by decide), other (by decide)⟩), if_neg fun h => other (by decide) h.1,
    if_pos hc]

/-- A minus sign directly in front of a digit begins a number. -/
theorem lexeme_minus (hc : isDigit c = true) (position : Nat) :
    lexeme position '-' (c :: rest) =
      numberToken true (scanDigits false (c :: rest)) (scanDigits false (c :: rest)).length := by
  rw [lexeme, if_neg (by decide), if_neg (by decide), if_neg (by decide), if_pos ⟨rfl, by simp [hc]⟩]

theorem isBlank_of_isDigit (hc : isDigit c = true) : isBlank c = false :=
  Bool.eq_false_iff.2 fun hb => by
    rw [(apart_of_isBlank hb).2.1] at hc
    cases hc

/-- The digits of a number are digits, and there are some. -/
theorem exists_digits (m : Nat) : ∃ c cs, Nat.toDigits 10 m = c :: cs ∧ ∀ d ∈ c :: cs, isDigit d = true := by
  obtain ⟨c, cs, hcs⟩ := List.exists_cons_of_ne_nil (Nat.toDigits_ne_nil (n := m) (b := 10))
  exact ⟨c, cs, hcs, fun d hd => isDigit_of_mem_toDigits (hcs ▸ hd)⟩

theorem legible_number {n : Int} (hlo : -9223372036854775808 ≤ n) (hhi : n < 9223372036854775808) :
    (Token.number (.whole n hlo (by omega))).Legible := by
  have hspell : (Token.number (.whole n hlo (by omega))).spelling = decimal n := toList_toString n
  constructor
  case head =>
    rw [hspell, decimal]
    split
    · rename_i hn
      obtain ⟨c, cs, hcs, hall⟩ := exists_digits n.toNat
      refine ⟨c, cs, hcs, isBlank_of_isDigit (hall c (by simp)), fun position rest h => ?_⟩
      rw [lexeme_digit (hall c (by simp)), ← List.cons_append, scanDigits_append hall h, ← hcs,
        numberToken_toDigits false n.toNat _ (by simp; omega) hlo hhi, hcs]
      rfl
    · rename_i hn
      obtain ⟨c, cs, hcs, hall⟩ := exists_digits (-n).toNat
      refine ⟨'-', _, rfl, by decide, fun position rest h => ?_⟩
      rw [hcs, List.cons_append, lexeme_minus (hall c (by simp)), ← List.cons_append,
        scanDigits_append hall h, ← hcs, numberToken_toDigits true (-n).toNat _ (by simp; omega) hlo hhi]
  case last =>
    intro c hc
    rw [hspell, decimal] at hc
    split at hc
    · exact isBlank_of_isDigit (isDigit_of_mem_toDigits (List.mem_of_getLast? hc))
    · rcases List.mem_cons.1 (List.mem_of_getLast? hc) with rfl | hc
      · decide
      · exact isBlank_of_isDigit (isDigit_of_mem_toDigits hc)

/-! ### Names -/

/-- Whether a text is a name: it begins with a letter or an underscore, and its dots stand by themselves,
    none of them at the end. -/
structure IsName (cs : List Char) : Prop where
  first : ∃ c ∈ cs.head?, isLetter c = true ∨ c = '_'
  chars : ∀ c ∈ cs, isNameChar c = true
  last : cs.getLast? ≠ some '.'
  apart : hasDoubleDot cs = false

theorem takeWhile_isNameChar (hcs : ∀ c ∈ cs, isNameChar c = true) (h : Breaks rest) :
    (cs ++ rest).takeWhile isNameChar = cs := by
  rw [List.takeWhile_append_of_pos hcs]
  cases rest with
  | nil => simp
  | cons c rest => simp [(apart_of_isBlank (h c rfl)).1]

/-- A letter or an underscore begins nothing but a name. -/
theorem lexeme_name (hc : isLetter c = true ∨ c = '_') (position : Nat) :
    lexeme position c rest = nameToken (c :: rest.takeWhile isNameChar) := by
  have other {d : Char} (hd : isLetter d = false ∧ d ≠ '_') : ¬c = d := by
    rintro rfl
    rw [hd.1] at hc
    exact hd.2 (hc.resolve_left Bool.false_ne_true)
  have hdigit : ¬isDigit c = true := fun h => by
    rcases hc with hc | rfl
    · rw [isLetter_of_isDigit h] at hc
      cases hc
    · cases h
  rw [lexeme, if_neg (other (by decide)), if_neg (other (by decide)),
    if_neg (not_or.2 ⟨other (by decide), other (by decide)⟩), if_neg fun h => other (by decide) h.1,
    if_neg hdigit, if_pos hc]

theorem legible_name {s : String} (h : IsName s.toList) : (Token.name s).Legible where
  head := by
    obtain ⟨c, hc, hfirst⟩ := h.first
    obtain ⟨cs, hcs⟩ := List.head?_eq_some_iff.1 hc
    rw [hcs] at h
    refine ⟨c, cs, hcs, isBlank_of_isNameChar (h.chars c (by simp)), fun position rest hr => ?_⟩
    rw [lexeme_name hfirst, takeWhile_isNameChar (fun d hd => h.chars d (by simp [hd])) hr, nameToken,
      if_neg (not_or.2 ⟨h.last, by simp [h.apart]⟩), ← hcs, String.ofList_toList, hcs]
    rfl
  last c hc := isBlank_of_isNameChar (h.chars c (List.mem_of_getLast? hc))

/-! ### Tokens with white space between them -/

/-- White space between two tokens. -/
structure Gap where
  blanks : List Char
  ne_nil : blanks ≠ []
  blank : ∀ c ∈ blanks, isBlank c = true

/-- The spellings of tokens with some white space between neighbours, the gaps counted from the end. -/
def spread (gap : Nat → Gap) : List Token → List Char
  | [] => []
  | [t] => t.spelling
  | t :: u :: ts => t.spelling ++ ((gap ts.length).blanks ++ spread gap (u :: ts))

theorem tokensFrom_blanks {bs : List Char} (h : ∀ c ∈ bs, isBlank c = true) (position : Nat) :
    tokensFrom 0 position (bs ++ rest) = tokensFrom 0 (position + bs.length) rest := by
  induction bs generalizing position with
  | nil => rfl
  | cons c bs ih =>
    rw [List.cons_append, tokensFrom, if_pos (h c (by simp)), ih fun c hc => h c (by simp [hc])]
    simp [Nat.add_assoc, Nat.add_comm 1]

/-- A legible token is the first of the tokens of a text that begins with its spelling. -/
theorem tokensFrom_legible {t : Token} (ht : t.Legible) (h : Breaks rest) (position : Nat) :
    tokensFrom 0 position (t.spelling ++ rest) =
      (tokensFrom 0 (position + t.spelling.length) rest).map (t :: ·) := by
  obtain ⟨c, cs, hs, hblank, hread⟩ := ht.head
  rw [hs, List.cons_append, tokensFrom, if_neg (by simp [hblank]), hread position rest h]
  dsimp only
  rw [tokensFrom_skip _ _ _ (by simp), List.drop_left, List.length_cons, Nat.add_assoc,
    Nat.add_comm 1]
  cases tokensFrom 0 (position + (cs.length + 1)) rest <;> rfl

theorem breaks_gap (g : Gap) : Breaks (g.blanks ++ rest) := by
  obtain ⟨c, cs, hcs⟩ := List.exists_cons_of_ne_nil g.ne_nil
  intro d hd
  rw [hcs, List.cons_append, List.head?_cons, Option.mem_some_iff] at hd
  exact g.blank d (by simp [hcs, hd])

/-- Legible tokens are read off their spellings, whatever white space stands between them. -/
theorem tokensFrom_spread (gap : Nat → Gap) : ∀ {ts : List Token}, (∀ t ∈ ts, t.Legible) →
    ∀ position, tokensFrom 0 position (spread gap ts) = .ok ts
  | [], _, _ => rfl
  | [t], h, position => by
    have hends : Breaks [] := by simp [Breaks]
    have hread := tokensFrom_legible (h t (by simp)) hends position
    rwa [List.append_nil] at hread
  | t :: u :: ts, h, position => by
    rw [spread, tokensFrom_legible (h t (by simp)) (breaks_gap _), tokensFrom_blanks (gap _).blank,
      tokensFrom_spread gap fun v hv => h v (List.mem_cons_of_mem _ hv)]
    rfl

/-- The spellings of legible tokens neither begin nor end with white space. -/
theorem trimList_spread (gap : Nat → Gap) {ts : List Token} (h : ∀ t ∈ ts, t.Legible) :
    trimList (spread gap ts) = spread gap ts := by
  refine trimList_of_ends ?_ ?_
  · match ts with
    | [] => simp [spread]
    | t :: ts =>
      obtain ⟨c, cs, hs, hblank, -⟩ := (h t (by simp)).head
      have hhead : (spread gap (t :: ts)).head? = some c := by
        cases ts <;> simp [spread, hs]
      simp [hhead, hblank]
  · induction ts with
    | nil => simp [spread]
    | cons t ts ih =>
      cases ts with
      | nil => exact (h t (by simp)).last
      | cons u ts =>
        obtain ⟨c, cs, hs, -⟩ := (h u (by simp)).head
        have hne : spread gap (u :: ts) ≠ [] := by cases ts <;> simp [spread, hs]
        have hlast : (spread gap (t :: u :: ts)).getLast? = (spread gap (u :: ts)).getLast? := by
          rw [spread, List.getLast?_append, List.getLast?_append, List.getLast?_eq_some_getLast hne]
          rfl
        rw [hlast]
        exact ih fun v hv => h v (List.mem_cons_of_mem _ hv)

end Guard
end Statechart
