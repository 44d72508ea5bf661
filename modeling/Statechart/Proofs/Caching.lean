import Mathlib.Data.List.Dedup
import Statechart.Evaluator

/-! What the cache of an evaluator changes: nothing but the work.

    The cache binds texts to the expressions that reading them anew gives, so it cannot be told from an
    answer whether a text was found or read. It holds the texts that were read as expressions and are
    such; a data expression that is a JSON literal is no expression text, though a condition may be
    written alike, and a text that is refused is refused again. -/

namespace Statechart.ExprCache

variable {cache : ExprCache} {source text : String} {scope : Value} {e : Guard.Expr}

/-- What an evaluator can be asked for. -/
inductive Query where
  | condition (source : String) (scope : Value)
  | value (source : String) (scope : Value)

/-- What comes of it: the truth of a condition or the value of a data expression, or an error. -/
inductive Answer where
  | truth (result : Except EvalError Bool)
  | value (result : Except EvalError Value)

namespace Query

/-- The answer of an evaluator with a cache, and the cache after it. -/
def ask (cache : ExprCache) : Query → Answer × ExprCache
  | .condition source scope =>
    let (result, cache) := cache.condition source scope
    (.truth result, cache)
  | .value source scope =>
    let (result, cache) := cache.value source scope
    (.value result, cache)

/-- The answer of reading every text anew. -/
def answer : Query → Answer
  | .condition source scope => .truth (Evaluator.standard.condition source scope)
  | .value source scope => .value (Evaluator.standard.value source scope)

/-- The text that is read as an expression for a query, if it is one. -/
def expression? : Query → Option String
  | .condition source _ => if (Guard.parse source).isOk then some source else none
  | .value source _ =>
    if (Evaluator.jsonLiteral? source).isNone ∧ (Guard.parse source).isOk then some source else none

end Query

/-- The answers to queries, one after the other, and the cache after them. -/
def askAll (cache : ExprCache) : List Query → List Answer × ExprCache
  | [] => ([], cache)
  | q :: qs =>
    let (a, cache) := q.ask cache
    let (as, cache) := askAll cache qs
    (a :: as, cache)

/-- Whether a cache binds texts, in order, to what reading them anew gives. -/
structure Faithful (cache : ExprCache) : Prop where
  sorted : (Dict.keys cache).Pairwise (· < ·)
  read : ∀ {source e}, Dict.get? source cache = some e → Evaluator.compile source = .ok e

theorem faithful_nil : Faithful [] := ⟨.nil, nofun⟩

theorem Faithful.insert (h : cache.Faithful) (he : Evaluator.compile source = .ok e) :
    Faithful (Dict.insert source e cache) where
  sorted := Dict.sorted_insert h.sorted
  read {text e'} hget := by
    by_cases hs : text = source
    · subst hs
      rw [Dict.get?_insert_self] at hget
      cases hget
      exact he
    · rw [Dict.get?_insert_of_ne hs] at hget
      exact h.read hget

theorem compile_eq_ok : Evaluator.compile source = .ok e ↔ Guard.parse source = .ok e := by
  unfold Evaluator.compile
  cases Guard.parse source <;> simp

/-- What one query does to a cache: the answer is the one of reading anew, and the text is added if it is
    an expression. -/
structure Asked (cache : ExprCache) {α : Type} (expected : α) (added? : Option String)
    (outcome : α × ExprCache) : Prop where
  answer : outcome.1 = expected
  faithful : outcome.2.Faithful
  keys : ∀ text, text ∈ Dict.keys outcome.2 ↔ text ∈ Dict.keys cache ∨ added? = some text

/-- Reading a text by way of the cache. -/
theorem asked_compile (h : cache.Faithful) (source : String) :
    Asked cache (Evaluator.compile source)
      (if (Guard.parse source).isOk then some source else none) (compile source cache) := by
  unfold compile
  cases hfound : Dict.get? source cache with
  | some e =>
    have hread := h.read hfound
    have hkey : source ∈ Dict.keys cache := Dict.has_iff.1 (by simp [Dict.has, hfound])
    refine ⟨hread.symm, h, fun text => ⟨.inl, ?_⟩⟩
    rintro (ht | ht)
    · exact ht
    · rw [compile_eq_ok.1 hread] at ht
      cases ht
      exact hkey
  | none =>
    cases hread : Evaluator.compile source with
    | ok e =>
      refine ⟨rfl, h.insert hread, fun text => ?_⟩
      rw [compile_eq_ok.1 hread, Dict.mem_keys_insert, or_comm]
      simp [Except.isOk, Except.toBool, eq_comm]
    | error err =>
      have hnot : (Guard.parse source).isOk = false := by
        cases hparse : Guard.parse source with
        | error => rfl
        | ok e => rw [compile_eq_ok.2 hparse] at hread; cases hread
      exact ⟨rfl, h, fun text => by simp [hnot]⟩

theorem Asked.map {α β : Type} {expected : α} {added? : Option String} {outcome : α × ExprCache}
    (h : Asked cache expected added? outcome) (f : α → β) :
    Asked cache (f expected) added? (f outcome.1, outcome.2) where
  answer := congrArg f h.answer
  faithful := h.faithful
  keys := h.keys

/-- A query is answered as by reading its text anew. -/
theorem asked_ask (h : cache.Faithful) (q : Query) : Asked cache q.answer q.expression? (q.ask cache) := by
  cases q with
  | condition source scope =>
    exact (asked_compile h source).map fun read => Answer.truth (read.map (Guard.Expr.holds scope))
  | value source scope =>
    have hread := (asked_compile h source).map fun read =>
      Answer.value (read.map (Guard.Expr.eval scope))
    simp only [Query.answer, Query.expression?, Query.ask, value, Evaluator.standard]
    cases Evaluator.jsonLiteral? source with
    | some literal => exact ⟨rfl, h, fun text => by simp⟩
    | none => simpa using hread

/-- Queries one after the other are answered as by reading every text anew. -/
theorem askAll_spec : ∀ (qs : List Query) {cache : ExprCache}, cache.Faithful →
    (askAll cache qs).1 = qs.map Query.answer ∧ (askAll cache qs).2.Faithful ∧
      ∀ text, text ∈ Dict.keys (askAll cache qs).2 ↔
        text ∈ Dict.keys cache ∨ text ∈ qs.filterMap Query.expression?
  | [], cache, h => ⟨rfl, h, fun text => by simp [askAll]⟩
  | q :: qs, cache, h => by
    have hask := asked_ask h q
    obtain ⟨hanswers, hfaithful, hkeys⟩ := askAll_spec qs hask.faithful
    refine ⟨?_, hfaithful, fun text => ?_⟩
    · rw [askAll, List.map_cons, ← hanswers, ← hask.answer]
    · rw [askAll, hkeys, hask.keys, or_assoc]
      simp [List.mem_filterMap]

/-- A faithful cache holds as many expressions as there are texts in it. -/
theorem Faithful.cached_eq (h : cache.Faithful) {texts : List String}
    (hkeys : ∀ text, text ∈ Dict.keys cache ↔ text ∈ texts) : cache.cached = texts.dedup.length := by
  have hperm : (Dict.keys cache).Perm texts.dedup :=
    (List.perm_ext_iff_of_nodup (Dict.nodup_of_sorted h.sorted) texts.nodup_dedup).2 fun text => by
      rw [hkeys, List.mem_dedup]
  rw [cached, ← hperm.length_eq, Dict.keys, List.length_map]

/-- Whatever an evaluator is asked for, and in whatever order: each answer is the one that a new
    evaluator gives, which is that of reading the text anew. After that the evaluator has kept the texts
    that it was asked to read as expressions and that are expressions, each once. -/
theorem answers_afresh (qs : List Query) :
    let (answers, cache) := askAll [] qs
    answers = qs.map (fun q => (q.ask []).1) ∧ answers = qs.map Query.answer ∧
      cache.cached = (qs.filterMap Query.expression?).dedup.length ∧
      ∀ text, text ∈ Dict.keys cache ↔ ∃ q ∈ qs, q.expression? = some text := by
  obtain ⟨hanswers, hfaithful, hkeys⟩ := askAll_spec qs faithful_nil
  have hkept (text : String) : text ∈ Dict.keys (askAll [] qs).2 ↔
      text ∈ qs.filterMap Query.expression? := by simpa [Dict.keys] using hkeys text
  have hnew : qs.map Query.answer = qs.map fun q => (q.ask []).1 :=
    List.map_congr_left fun q _ => (asked_ask faithful_nil q).answer.symm
  exact ⟨hanswers.trans hnew, hanswers, hfaithful.cached_eq hkept, fun text => by
    rw [hkept, List.mem_filterMap]⟩

end Statechart.ExprCache
