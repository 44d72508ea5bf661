import Statechart.Definition.Reader
import Statechart.Definition.Writer
import Statechart.Value.Parser

/-! Written records, and what is read of them.

    A value is in order if the fields of every object in it stand in increasing order of their names, as
    they do in every value that is read from a text; putting the fields in order changes nothing then. A
    record is written as the list of its fields, those that are left out among them, and every field
    that is there is read as it was written, wherever it comes to stand when the fields are put in
    order. A thing is kept if it is read back from its written form; a field is read back if what it
    holds is kept. -/

namespace Statechart

namespace Dict

variable {α : Type} {k : String} {a : α} {d e bs : Dict String α}

/-- Maps with the same bindings, no key bound twice, answer alike. -/
theorem get?_eq_of_perm (h : d.Perm e) (hd : (keys d).Nodup) : get? k d = get? k e := by
  have he : (keys e).Nodup := (h.map Prod.fst).nodup_iff.1 hd
  refine Option.ext fun a => ⟨fun ha => ?_, fun ha => ?_⟩
  · exact get?_of_mem he (h.mem_iff.1 (mem_of_get? ha))
  · exact get?_of_mem hd (h.mem_iff.2 (mem_of_get? ha))

/-- A binding whose key lies behind all others is added at the end. -/
theorem insert_of_lt (h : ∀ k' ∈ keys d, k' < k) : insert k a d = d ++ [(k, a)] := by
  induction d with
  | nil => rfl
  | cons p d ih =>
    obtain ⟨k', a'⟩ := p
    have hlt : k' < k := h k' List.mem_cons_self
    have hne : k ≠ k' := fun e => String.lt_irrefl k' (e ▸ hlt)
    rw [insert, if_neg hne, if_neg (String.lt_asymm hlt),
      ih fun k'' hk'' => h k'' (List.mem_cons_of_mem _ hk'')]
    rfl

theorem insertAll_of_pairwise (h : (keys (d ++ bs)).Pairwise (· < ·)) : insertAll d bs = d ++ bs := by
  induction bs generalizing d with
  | nil => simp [insertAll]
  | cons b bs ih =>
    have hb : ∀ k ∈ keys d, k < b.1 := by
      rw [keys, List.map_append, List.pairwise_append] at h
      exact fun k hk => h.2.2 k hk b.1 List.mem_cons_self
    have hd : (insert b.1 b.2 d) = d ++ [b] := insert_of_lt hb
    have hrest := ih (d := d ++ [b]) (by simpa using h)
    rw [List.append_assoc] at hrest
    rw [insertAll, List.foldl_cons, hd]
    exact hrest

/-- Bindings in increasing order of their keys are a map as they stand. -/
theorem ofList_of_pairwise (h : (keys bs).Pairwise (· < ·)) : ofList bs = bs :=
  insertAll_of_pairwise (d := []) h

end Dict

namespace Value

mutual

/-- Whether the fields of every object in a value stand in increasing order of their names. -/
def Ordered : Value → Prop
  | .array items => OrderedItems items
  | .object fields => (Dict.keys fields).Pairwise (· < ·) ∧ OrderedFields fields
  | _ => True

/-- Whether every item is in order. -/
def OrderedItems : List Value → Prop
  | [] => True
  | v :: vs => v.Ordered ∧ OrderedItems vs

/-- Whether the value of every field is in order. -/
def OrderedFields : List (String × Value) → Prop
  | [] => True
  | (_, v) :: fs => v.Ordered ∧ OrderedFields fs

end

theorem orderedItems_iff {vs : List Value} : OrderedItems vs ↔ ∀ v ∈ vs, v.Ordered := by
  induction vs with
  | nil => simp [OrderedItems]
  | cons v vs ih => simp [OrderedItems, ih]

theorem orderedFields_iff {fs : List (String × Value)} :
    OrderedFields fs ↔ ∀ f ∈ fs, f.2.Ordered := by
  induction fs with
  | nil => simp [OrderedFields]
  | cons f fs ih => simp [OrderedFields, ih]

theorem sortItems_eq_map (vs : List Value) : sortItems vs = vs.map sortFields := by
  induction vs with
  | nil => rfl
  | cons v vs ih => rw [sortItems, ih, List.map_cons]

theorem sortEach_eq_map (fs : List (String × Value)) :
    sortEach fs = fs.map fun f => (f.1, f.2.sortFields) := by
  induction fs with
  | nil => rfl
  | cons f fs ih => rw [sortEach, ih, List.map_cons]

theorem keys_sortEach (fs : List (String × Value)) : Dict.keys (sortEach fs) = Dict.keys fs := by
  rw [sortEach_eq_map, Dict.keys, List.map_map]
  rfl

mutual

/-- A value in order stays as it is when its fields are put in order. -/
theorem sortFields_of_ordered : ∀ {v : Value}, v.Ordered → v.sortFields = v
  | .array items, h => by rw [sortFields, sortItems_of_ordered h]
  | .object fields, h => by
    rw [sortFields, sortEach_of_ordered h.2, Dict.ofList_of_pairwise h.1]
  | .null, _ | .bool _, _ | .number _, _ | .string _, _ => rfl

theorem sortItems_of_ordered : ∀ {vs : List Value}, OrderedItems vs → sortItems vs = vs
  | [], _ => rfl
  | v :: vs, h => by rw [sortItems, sortFields_of_ordered h.1, sortItems_of_ordered h.2]

theorem sortEach_of_ordered : ∀ {fs : List (String × Value)}, OrderedFields fs → sortEach fs = fs
  | [], _ => rfl
  | (k, v) :: fs, h => by rw [sortEach, sortFields_of_ordered h.1, sortEach_of_ordered h.2]

end

/-- A field that is bound in an object in order keeps it in order. -/
theorem ordered_insert {fields : Object} {v : Value} (name : String) (hf : (object fields).Ordered)
    (hv : v.Ordered) : (object (Dict.insert name v fields)).Ordered := by
  refine ⟨Dict.sorted_insert hf.1, orderedFields_iff.2 fun f hm => ?_⟩
  rcases Dict.mem_of_mem_insert hm with rfl | hm
  · exact hv
  · exact orderedFields_iff.1 hf.2 f hm

mutual

/-- Every value that is read from a text is in order if what stands for a number is. -/
theorem ordered_readValue {d : Dialect} (hd : ∀ l, ∀ v ∈ d.number? l, v.Ordered) :
    ∀ {fuel depth : Nat} {cs rest : List Char} {v : Value},
      readValue d fuel depth cs = some (v, rest) → v.Ordered
  | fuel + 1, depth, cs, rest, v, h => by
    unfold readValue at h
    split at h
    case h_5 =>
      split at h
      · cases h
      split at h
      · cases h
        trivial
      · exact ordered_readItems hd (show OrderedItems [] from trivial) h
    case h_6 =>
      split at h
      · cases h
      split at h
      · cases h
        exact ⟨.nil, trivial⟩
      · exact ordered_readFields hd (show (object []).Ordered from ⟨.nil, trivial⟩) h
    case h_7 =>
      obtain ⟨⟨l, cs⟩, -, h⟩ := Option.bind_eq_some_iff.1 h
      obtain ⟨v, hv, h⟩ := Option.bind_eq_some_iff.1 h
      cases h
      exact hd l v hv
    all_goals
      obtain ⟨_, -, h⟩ := Option.map_eq_some_iff.1 h
      cases h
      trivial

theorem ordered_readItems {d : Dialect} (hd : ∀ l, ∀ v ∈ d.number? l, v.Ordered) :
    ∀ {fuel depth : Nat} {out : List Value} {cs rest : List Char} {v : Value}, OrderedItems out →
      readItems d fuel depth out cs = some (v, rest) → v.Ordered
  | fuel + 1, depth, out, cs, rest, v, ho, h => by
    unfold readItems at h
    split at h
    · cases h
    rename_i w cs hw
    have hout : OrderedItems (w :: out) := ⟨ordered_readValue hd hw, ho⟩
    split at h
    · exact ordered_readItems hd hout h
    · cases h
      exact orderedItems_iff.2 fun u hu => orderedItems_iff.1 hout u (List.mem_reverse.1 hu)
    · cases h

theorem ordered_readFields {d : Dialect} (hd : ∀ l, ∀ v ∈ d.number? l, v.Ordered) :
    ∀ {fuel depth : Nat} {out : Object} {cs rest : List Char} {v : Value}, (object out).Ordered →
      readFields d fuel depth out cs = some (v, rest) → v.Ordered
  | fuel + 1, depth, out, cs, rest, v, ho, h => by
    unfold readFields at h
    split at h
    · split at h
      · cases h
      rename_i name cs hname
      split at h
      · split at h
        · cases h
        rename_i w cs hw
        have hout := ordered_insert name ho (ordered_readValue hd hw)
        split at h
        · exact ordered_readFields hd hout h
        · cases h
          exact hout
        · cases h
      · cases h
    · cases h

end

/-- Every value that a text of data writes is in order. -/
theorem ordered_of_parse {s : String} {v : Value} (h : parse? s = some v) : v.Ordered := by
  unfold parse? parseNested? parseWith? at h
  dsimp only at h
  split at h
  · split at h
    · cases h
      refine ordered_readValue (fun l w hw => ?_) ‹_›
      obtain ⟨n, -, hw⟩ := Option.map_eq_some_iff.1 hw
      exact hw ▸ trivial
    · cases h
  · cases h

theorem get?_sortEach (k : String) (fs : List (String × Value)) :
    Dict.get? k (sortEach fs) = (Dict.get? k fs).map sortFields := by
  induction fs with
  | nil => rfl
  | cons f fs ih =>
    rw [sortEach, Dict.get?, Dict.get?]
    split
    · rfl
    · exact ih

/-! ### Fields that may be left out -/

/-- The fields that are there. -/
def present (l : Dict String (Option Value)) : List (String × Value) :=
  l.filterMap fun f => f.2.map (f.1, ·)

/-- The fields that are there, in order. -/
def written (l : Dict String (Option Value)) : Object := Dict.ofList (sortEach (present l))

@[simp] theorem present_nil : present [] = [] := rfl

theorem present_cons (name : String) (v : Option Value) (l : Dict String (Option Value)) :
    present ((name, v) :: l) = (v.map (name, ·)).toList ++ present l := by
  cases v <;> simp [present]

theorem keys_present_sublist (l : Dict String (Option Value)) :
    (Dict.keys (present l)).Sublist (Dict.keys l) := by
  induction l with
  | nil => exact .slnil
  | cons f l ih =>
    obtain ⟨name, _ | v⟩ := f
    · exact ih.cons name
    · exact ih.cons_cons name

section

variable {k : String} {l : Dict String (Option Value)} (hl : (Dict.keys l).Nodup)

include hl

theorem get?_present : Dict.get? k (present l) = (Dict.get? k l).join := by
  induction l with
  | nil => rfl
  | cons f l ih =>
    obtain ⟨name, v⟩ := f
    obtain ⟨hname, hl⟩ := List.nodup_cons.1 hl
    have hrest := ih hl
    rw [present_cons, Dict.get?]
    cases v with
    | some v =>
      rw [Option.map_some, Option.toList_some, List.singleton_append, Dict.get?]
      split
      · rfl
      · exact hrest
    | none =>
      rw [Option.map_none, Option.toList_none, List.nil_append, hrest]
      split
      · rename_i e
        subst e
        cases h : Dict.get? k l with
        | none => rfl
        | some o => exact absurd (List.mem_map_of_mem (f := Prod.fst) (Dict.mem_of_get? h)) hname
      · rfl

theorem written_perm : (written l).Perm (sortEach (present l)) := by
  refine Dict.ofList_perm ?_
  rw [← Dict.keys, keys_sortEach]
  exact hl.sublist (keys_present_sublist l)

/-- Every field is found as it was written, its own fields in order. -/
theorem get?_written : Dict.get? k (written l) = (Dict.get? k l).join.map sortFields := by
  have hnodup : (Dict.keys (written l)).Nodup := by
    refine ((written_perm hl).map Prod.fst).nodup_iff.2 ?_
    rw [← Dict.keys, keys_sortEach]
    exact hl.sublist (keys_present_sublist l)
  rw [Dict.get?_eq_of_perm (written_perm hl) hnodup, get?_sortEach, get?_present hl]

theorem mem_written {f : String × Value} (h : f ∈ written l) :
    ∃ v, (f.1, some v) ∈ l ∧ f.2 = v.sortFields := by
  rw [(written_perm hl).mem_iff, sortEach_eq_map] at h
  obtain ⟨g, hg, rfl⟩ := List.mem_map.1 h
  obtain ⟨⟨name, o⟩, ho, hg⟩ := List.mem_filterMap.1 hg
  obtain ⟨v, rfl, rfl⟩ := Option.map_eq_some_iff.1 hg
  exact ⟨v, ho, rfl⟩

end

/-! ### Reading back -/

variable {α : Type} {read : Value → Option α} {write : α → Value} {name : String}

/-- Whether a thing is read back from its written form. -/
def Kept (read : Value → Option α) (write : α → Value) (a : α) : Prop :=
  read (write a).sortFields = some a

/-- A list as the value of a field; none if it is empty. -/
def full (items : List Value) : Option Value := if items.isEmpty then none else some (.array items)

/-- A map as the value of a field; none if it is empty. -/
def filled (fields : Object) : Option Value := if fields.isEmpty then none else some (.object fields)

theorem mapM_eq_some {vs : List Value} {as : List α} (h : vs.mapM read = some as) :
    ∀ a ∈ as, ∃ v ∈ vs, read v = some a := by
  induction vs generalizing as with
  | nil =>
    cases h
    exact fun a ha => nomatch ha
  | cons v vs ih =>
    rw [List.mapM_cons] at h
    obtain ⟨a, hv, h⟩ := Option.bind_eq_some_iff.1 h
    obtain ⟨as, hvs, h⟩ := Option.bind_eq_some_iff.1 h
    cases h
    intro b hb
    rcases List.mem_cons.1 hb with rfl | hb
    · exact ⟨v, List.mem_cons_self, hv⟩
    · obtain ⟨w, hw, hb⟩ := ih hvs b hb
      exact ⟨w, List.mem_cons_of_mem v hw, hb⟩

theorem mapM_of_kept {as : List α} (h : ∀ a ∈ as, Kept read write a) :
    (sortItems (as.map write)).mapM read = some as := by
  induction as with
  | nil => rfl
  | cons a as ih =>
    have ha : read (write a).sortFields = some a := h a List.mem_cons_self
    rw [List.map_cons, sortItems, List.mapM_cons, ha, ih fun b hb => h b (List.mem_cons_of_mem a hb)]
    rfl

/-- Every thing of a list that was read is kept if whatever is read is kept. -/
theorem kept_of_defaulted {fields : Object} {as : List α}
    (h : defaulted fields name [] (readList read) = some as)
    (hread : ∀ {v a}, read v = some a → Kept read write a) : ∀ a ∈ as, Kept read write a := by
  unfold defaulted at h
  split at h
  · cases h
    exact fun a ha => nomatch ha
  rename_i v _
  cases v with
  | array items => exact fun a ha => (mapM_eq_some h a ha).elim fun v hv => hread hv.2
  | null | bool | number | string | object => cases h

theorem lt_of_readNat {bound n : Nat} {v : Value} (h : readNat bound v = some n) : n < bound := by
  unfold readNat at h
  split at h
  · split at h
    · split at h
      · cases h
        omega
      · cases h
    · cases h
  · cases h

theorem lt_of_defaulted {fields : Object} {bound n : Nat} (hb : 0 < bound)
    (h : defaulted fields name 0 (readNat bound) = some n) : n < bound := by
  unfold defaulted at h
  split at h
  · cases h
    exact hb
  · exact lt_of_readNat h

theorem lt_of_optional {fields : Object} {bound : Nat} {o : Option Nat}
    (h : optional fields name (readNat bound) = some o) : ∀ n ∈ o, n < bound := by
  unfold optional at h
  split at h
  · cases h
    exact fun _ hn => nomatch hn
  · cases h
    exact fun _ hn => nomatch hn
  · obtain ⟨n, hn, h⟩ := Option.map_eq_some_iff.1 h
    cases h
    exact fun _ hm => Option.some.inj hm ▸ lt_of_readNat hn

theorem readNat_ofNat {bound n : Nat} (h : n < bound) (hb : bound ≤ bound64) :
    readNat bound (ofNat n).sortFields = some n := by
  have hn : min n 18446744073709551615 = n := by
    have : bound64 = 18446744073709551616 := rfl
    omega
  simp only [ofNat, sortFields, readNat, Number.ofNat, Number.int?]
  rw [if_pos ⟨by omega, by omega⟩]
  exact congrArg some (by omega)

/-! ### The fields of a written record -/

section

variable {l : Dict String (Option Value)} (hl : (Dict.keys l).Nodup)

include hl

theorem required_written {v : Value} {a : α} (hname : Dict.get? name l = some (some v))
    (hread : read v.sortFields = some a) : required (written l) name read = some a := by
  rw [required, get?_written hl, hname]
  exact hread

theorem defaulted_written {o : Option Value} {a d : α} (hname : Dict.get? name l = some o)
    (hread : (o.elim (some d) fun v => read v.sortFields) = some a) :
    defaulted (written l) name d read = some a := by
  rw [defaulted, get?_written hl, hname, ← hread]
  cases o <;> rfl

theorem optional_written {o : Option α} (hname : Dict.get? name l = some (o.map write))
    (hnull : read .null = none) (hread : ∀ a ∈ o, Kept read write a) :
    optional (written l) name read = some o := by
  rw [optional, get?_written hl, hname]
  cases o with
  | none => rfl
  | some a =>
    have ha : read (write a).sortFields = some a := hread a rfl
    cases hv : (write a).sortFields <;> simp_all

theorem optional_text {o : Option String} (hname : Dict.get? name l = some (o.map .string)) :
    optional (written l) name readText = some o :=
  optional_written hl hname rfl fun _ _ => rfl

/-- A list is read back if each of its things is, also from a field that is left out. -/
theorem list_written {as : List α} (hname : Dict.get? name l = some (full (as.map write)))
    (has : ∀ a ∈ as, Kept read write a) :
    defaulted (written l) name [] (readList read) = some as := by
  refine defaulted_written hl hname ?_
  cases as with
  | nil => rfl
  | cons a as => exact mapM_of_kept has

theorem names_written {ss : List String} (hname : Dict.get? name l = some (full (ss.map .string))) :
    defaulted (written l) name [] readNames = some ss := by
  refine defaulted_written hl hname ?_
  cases ss with
  | nil => rfl
  | cons s ss =>
    exact mapM_of_kept (show ∀ a ∈ s :: ss, Kept readText Value.string a from fun _ _ => rfl)

theorem map_written {m : Object} (hname : Dict.get? name l = some (filled m))
    (hm : (Value.object m).Ordered) : defaulted (written l) name [] readObject = some m := by
  refine defaulted_written hl hname ?_
  cases m with
  | nil => rfl
  | cons f m =>
    change readObject (Value.object (f :: m)).sortFields = _
    rw [sortFields_of_ordered hm]
    rfl

end

/-- The map that was read from a field of a value in order is in order. -/
theorem ordered_of_defaulted {fields m : Object} (hf : OrderedFields fields)
    (h : defaulted fields name [] readObject = some m) : (Value.object m).Ordered := by
  unfold defaulted at h
  split at h
  · cases h
    exact ⟨.nil, trivial⟩
  rename_i v hv
  cases v with
  | object m' =>
    cases h
    exact orderedFields_iff.1 hf _ (Dict.mem_of_get? hv)
  | null | bool | number | string | array => cases h

theorem ordered_readRecord {names : List String} {v : Value} {fields : Object} (hv : v.Ordered)
    (h : readRecord names v = some fields) : OrderedFields fields := by
  cases v with
  | object fields' =>
    cases h
    exact hv.2
  | array items =>
    rw [readRecord] at h
    split at h
    · cases h
      exact orderedFields_iff.2 fun f hf => orderedItems_iff.1 hv f.2 (List.of_mem_zip hf).2
    · cases h
  | null | bool | number | string => cases h

/-! ### The parts of a written record -/

theorem optionalField_eq (name : String) (o : Option String) :
    optionalField name o = ((o.map Value.string).map (name, ·)).toList := by
  cases o <;> rfl

theorem listField_eq (name : String) (items : List Value) :
    listField name items = ((full items).map (name, ·)).toList := by
  cases items <;> rfl

theorem mapField_eq (name : String) (fields : Object) :
    mapField name fields = ((filled fields).map (name, ·)).toList := by
  cases fields <;> rfl

theorem sortFields_present (l : Dict String (Option Value)) :
    (Value.object (present l)).sortFields = .object (written l) := rfl

end Value
end Statechart
