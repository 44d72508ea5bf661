import Statechart.Host.Registry
import Statechart.Proofs.Legal
import Statechart.Value.Flow

/-! Registering charts, in whatever order and from whatever files.

    A registry only grows. Each definition that is registered, each file and each directory adds what it
    adds under names and versions that were free, and nothing else; so the charts that it holds are those
    that were added, each under the name and version that it was added under, and what was found once is
    found for good. A directory of which one file is refused adds the files before that one. How YAML is
    read does not matter for any of this. -/

namespace Statechart

open Chart

namespace Registry

variable {name : String} {version : Nat} {v : Value} {c c' : Chart} {r r' r'' : Registry}
  {yaml : Yaml} {fs : FileSystem} {path : String} {e : HostError}

/-- Charts by name and version, in the order in which they were added. -/
abbrev Additions := Dict (String × Nat) Chart

/-- What registering a definition adds. -/
def addsPut (name : String) (version : Nat) (v : Value) (r : Registry) : Additions :=
  match r.put name version v with
  | .ok (c, true, _) => [((name, version), c)]
  | _ => []

/-- What loading a chart file adds. -/
def addsFile (yaml : Yaml) (fs : FileSystem) (path : String) (r : Registry) : Additions :=
  match readDefinition yaml fs path with
  | .error _ => []
  | .ok v => r.addsPut (nameOf path v) (versionOf v) v

/-- What loading chart files adds, up to the first that fails. -/
def addsFiles (yaml : Yaml) (fs : FileSystem) : List String → Registry → Additions
  | [], _ => []
  | path :: paths, r =>
    match r.loadFile yaml fs path with
    | .error _ => []
    | .ok (_, r') => r.addsFile yaml fs path ++ addsFiles yaml fs paths r'

/-- What loading a directory adds. -/
def addsDir (yaml : Yaml) (fs : FileSystem) (dir : String) (r : Registry) : Additions :=
  match fs.files? dir with
  | none => []
  | some names =>
    let names := stableSort (fun a b => decide (a ≤ b)) (names.filter (isChartFile yaml))
    r.addsFiles yaml fs (names.map (FileSystem.join dir))

/-- What a registry can be asked for: to register a definition, or to load a chart file or a directory.
    Files may change from one request to the next. -/
inductive Filing where
  | put (name : String) (version : Nat) (v : Value)
  | file (fs : FileSystem) (path : String)
  | dir (fs : FileSystem) (path : String)

namespace Filing

/-- Why a request is refused, if it is, and the registry after it. -/
def outcome (yaml : Yaml) (r : Registry) : Filing → Option HostError × Registry
  | .put name version v =>
    match r.put name version v with
    | .ok (_, _, r') => (none, r')
    | .error e => (some e, r)
  | .file fs path =>
    match r.loadFile yaml fs path with
    | .ok (_, r') => (none, r')
    | .error e => (some e, r)
  | .dir fs path =>
    match r.loadDir yaml fs path with
    | (.ok _, r') => (none, r')
    | (.error e, r') => (some e, r')

/-- What a request adds. -/
def adds (yaml : Yaml) (r : Registry) : Filing → Additions
  | .put name version v => r.addsPut name version v
  | .file fs path => r.addsFile yaml fs path
  | .dir fs path => r.addsDir yaml fs path

end Filing

/-- The registry after requests. -/
def fileAll (yaml : Yaml) (fs : List Filing) (r : Registry) : Registry :=
  fs.foldl (fun r f => (f.outcome yaml r).2) r

/-- What requests add, one after the other. -/
def addsAll (yaml : Yaml) : List Filing → Registry → Additions
  | [], _ => []
  | f :: fs, r => f.adds yaml r ++ addsAll yaml fs (f.outcome yaml r).2

/-! ### Growing -/

/-- Whether a registry becomes another one by additions, each of a chart that loads under a name and
    version that are free. -/
inductive Grows : Registry → Additions → Registry → Prop where
  | refl (r : Registry) : Grows r [] r
  | add {r r' : Registry} {name : String} {version : Nat} {v : Value} {c : Chart} {as : Additions}
      (hfree : r.get? name version = none) (hload : Chart.load name version v = .ok c)
      (h : Grows (r.add name version c) as r') : Grows r (((name, version), c) :: as) r'

namespace Grows

variable {as bs : Additions}

theorem trans (h : Grows r as r') (h' : Grows r' bs r'') : Grows r (as ++ bs) r'' := by
  induction h with
  | refl => exact h'
  | add hfree hload _ ih => exact .add hfree hload (ih h')

/-- What is found afterwards was found before, or was added. -/
theorem get? (h : Grows r as r') (name : String) (version : Nat) :
    r'.get? name version = (r.get? name version).or (Dict.get? (name, version) as) := by
  induction h with
  | refl => simp
  | @add r r' name' version' v c as hfree _ _ ih =>
    rw [ih]
    by_cases hkey : name = name' ∧ version = version'
    · obtain ⟨rfl, rfl⟩ := hkey
      simp [hfree, Dict.get?]
    · have hne : (name, version) ≠ (name', version') := fun e => hkey (Prod.mk.inj e)
      rw [get?_add_of_ne hkey, Dict.get?, if_neg hne]

/-- What is added is added once, and was not there before. -/
theorem fresh (h : Grows r as r') :
    (Dict.keys as).Nodup ∧ ∀ k ∈ Dict.keys as, r.get? k.1 k.2 = none := by
  induction h with
  | refl => exact ⟨.nil, nofun⟩
  | @add r r' name version v c as hfree _ _ ih =>
    obtain ⟨hnodup, hnone⟩ := ih
    -- a later addition is not under the same name and version, since these are taken by then
    have hapart : ∀ k ∈ Dict.keys as, ¬(k.1 = name ∧ k.2 = version) := by
      rintro k hk ⟨hname, hversion⟩
      have htaken := hnone k hk
      rw [hname, hversion, get?_add_self] at htaken
      cases htaken
    refine ⟨List.nodup_cons.2 ⟨fun hk => hapart _ hk ⟨rfl, rfl⟩, hnodup⟩, fun k hk => ?_⟩
    rcases List.mem_cons.1 hk with rfl | hk
    · exact hfree
    · rw [← get?_add_of_ne (hapart k hk)]
      exact hnone k hk

/-- Every chart that is added was loaded under its name and version. -/
theorem loaded (h : Grows r as r') : ∀ a ∈ as, ∃ v, Chart.load a.1.1 a.1.2 v = .ok a.2 := by
  induction h with
  | refl => exact nofun
  | @add r r' name version v c as _ hload _ ih =>
    intro a ha
    rcases List.mem_cons.1 ha with rfl | ha
    · exact ⟨v, hload⟩
    · exact ih a ha

end Grows

/-- The outcomes of registering a definition. -/
inductive Put (name : String) (version : Nat) (v : Value) (r : Registry) :
    Except HostError (Chart × Bool × Registry) → Prop where
  | added {c : Chart} (hload : Chart.load name version v = .ok c) (hfree : r.get? name version = none) :
      Put name version v r (.ok (c, true, r.add name version c))
  | again {c c' : Chart} (hload : Chart.load name version v = .ok c')
      (hfound : r.get? name version = some c) (hsame : c.checksum = c'.checksum) :
      Put name version v r (.ok (c, false, r))
  | conflict {c c' : Chart} (hload : Chart.load name version v = .ok c')
      (hfound : r.get? name version = some c) (hother : c.checksum ≠ c'.checksum) :
      Put name version v r (.error (.chartVersionExists name version))
  | unloaded {e : MachineError} (hload : Chart.load name version v = .error e) :
      Put name version v r (.error (.machine e))

theorem put_cases (name : String) (version : Nat) (v : Value) (r : Registry) :
    Put name version v r (r.put name version v) := by
  unfold put
  split
  · exact .unloaded ‹_›
  rename_i c hload
  split
  · exact .added hload ‹_›
  rename_i old hfound
  split
  · exact .again hload hfound ‹_›
  · exact .conflict hload hfound ‹_›

theorem grows_put (h : r.put name version v = .ok (c, created, r')) :
    Grows r (r.addsPut name version v) r' := by
  have hput := put_cases name version v r
  unfold addsPut
  rw [h] at hput ⊢
  cases hput with
  | added hload hfree => exact .add hfree hload (.refl _)
  | again => exact .refl _

theorem addsPut_of_error (h : r.put name version v = .error e) : r.addsPut name version v = [] := by
  rw [addsPut, h]

/-- A file loads if it can be read and what it holds is registered, under the name and version that it
    goes by. -/
theorem loadFile_eq_ok : r.loadFile yaml fs path = .ok (c, r') ↔
    ∃ v created, readDefinition yaml fs path = .ok v ∧
      r.put (nameOf path v) (versionOf v) v = .ok (c, created, r') := by
  rw [loadFile]
  cases readDefinition yaml fs path with
  | error e => simp
  | ok v =>
    cases hput : r.put (nameOf path v) (versionOf v) v with
    | error e => simp [hput]
    | ok a =>
      obtain ⟨d, created, s⟩ := a
      dsimp only
      rw [hput]
      constructor
      · intro h
        cases h
        exact ⟨v, created, rfl, hput⟩
      · rintro ⟨w, again, hw, hagain⟩
        cases hw
        rw [hput] at hagain
        cases hagain
        rfl

theorem grows_loadFile (h : r.loadFile yaml fs path = .ok (c, r')) :
    Grows r (r.addsFile yaml fs path) r' := by
  obtain ⟨v, created, hv, hput⟩ := loadFile_eq_ok.1 h
  rw [addsFile, hv]
  exact grows_put hput

theorem addsFile_of_error (h : r.loadFile yaml fs path = .error e) : r.addsFile yaml fs path = [] := by
  rw [addsFile]
  cases hv : readDefinition yaml fs path with
  | error e => rfl
  | ok v =>
    cases hput : r.put (nameOf path v) (versionOf v) v with
    | error e => exact addsPut_of_error hput
    | ok a =>
      rw [loadFile_eq_ok.2 ⟨v, a.2.1, hv, hput⟩] at h
      cases h

theorem grows_loadFiles (yaml : Yaml) (fs : FileSystem) : ∀ (paths : List String) (r : Registry),
    Grows r (r.addsFiles yaml fs paths) (r.loadFiles yaml fs paths).2
  | [], r => .refl r
  | path :: paths, r => by
    rw [addsFiles, loadFiles]
    cases h : r.loadFile yaml fs path with
    | error e => exact .refl r
    | ok a =>
      have hrest := (grows_loadFile h).trans (grows_loadFiles yaml fs paths a.2)
      dsimp only
      split <;> rename_i hs <;> rwa [hs] at hrest

theorem grows_loadDir (yaml : Yaml) (fs : FileSystem) (dir : String) (r : Registry) :
    Grows r (r.addsDir yaml fs dir) (r.loadDir yaml fs dir).2 := by
  unfold addsDir loadDir
  cases fs.files? dir with
  | none => exact .refl r
  | some names => exact grows_loadFiles yaml fs _ r

/-- A request adds what it adds, also one that is refused. -/
theorem grows_outcome (yaml : Yaml) (r : Registry) (f : Filing) :
    Grows r (f.adds yaml r) (f.outcome yaml r).2 := by
  cases f with
  | put name version v =>
    rw [Filing.outcome, Filing.adds]
    split <;> rename_i h
    · exact grows_put h
    · rw [addsPut_of_error h]
      exact .refl r
  | file fs path =>
    rw [Filing.outcome, Filing.adds]
    split <;> rename_i h
    · exact grows_loadFile h
    · rw [addsFile_of_error h]
      exact .refl r
  | dir fs path =>
    have h := grows_loadDir yaml fs path r
    rw [Filing.outcome, Filing.adds]
    split <;> rename_i hr <;> rwa [hr] at h

theorem grows_fileAll (yaml : Yaml) : ∀ (fs : List Filing) (r : Registry),
    Grows r (addsAll yaml fs r) (fileAll yaml fs r)
  | [], r => .refl r
  | f :: fs, r => (grows_outcome yaml r f).trans (grows_fileAll yaml fs (f.outcome yaml r).2)

/-! ### In order -/

/-- Whether names are in order, and the versions of every name, of which there is one at least. -/
structure Ordered (r : Registry) : Prop where
  names : (Dict.keys r).Pairwise (· < ·)
  versions : ∀ vs ∈ r, (Dict.keys vs.2).Pairwise (· < ·) ∧ vs.2 ≠ []

theorem ordered_add (h : r.Ordered) (name : String) (version : Nat) (c : Chart) :
    (r.add name version c).Ordered where
  names := Dict.sorted_insert h.names
  versions vs hvs := by
    rcases Dict.mem_of_mem_insert hvs with rfl | hvs
    · refine ⟨Dict.pairwise_keys_insert (fun _ _ _ => Nat.lt_trans) (fun _ _ => Nat.lt_or_gt_of_ne) ?_,
        fun hnil => ?_⟩
      · unfold Registry.versions
        cases hfound : Dict.get? name r with
        | none => exact .nil
        | some ds => exact (h.versions _ (Dict.mem_of_get? hfound)).1
      · have hget := Dict.get?_insert_self version c (r.versions name)
        rw [show Dict.insert version c (r.versions name) = [] from hnil] at hget
        cases hget
    · exact h.versions vs hvs

theorem Grows.ordered {as : Additions} (h : Grows r as r') (ho : r.Ordered) : r'.Ordered := by
  induction h with
  | refl => exact ho
  | add _ _ _ ih => exact ih (ordered_add ho _ _ _)

/-- A version is listed under a name exactly if a chart is found under them. -/
theorem listed_iff (h : r.Ordered) :
    (∃ vs, (name, vs) ∈ r.list ∧ version ∈ vs) ↔ ∃ c, r.get? name version = some c := by
  constructor
  · rintro ⟨vs, hvs, hversion⟩
    obtain ⟨⟨name', ds⟩, hmem, heq⟩ := List.mem_map.1 hvs
    cases heq
    have hfound := Dict.get?_of_mem (Dict.nodup_of_sorted h.names) hmem
    have hhas := Dict.has_iff.2 hversion
    rw [Registry.get?, versions, hfound]
    exact Option.isSome_iff_exists.1 hhas
  · rintro ⟨c, hc⟩
    rw [Registry.get?, versions] at hc
    cases hfound : Dict.get? name r with
    | none =>
      rw [hfound] at hc
      cases hc
    | some ds =>
      rw [hfound] at hc
      refine ⟨Dict.keys ds, List.mem_map.2 ⟨_, Dict.mem_of_get? hfound, rfl⟩, Dict.has_iff.1 ?_⟩
      rw [Dict.has, show Dict.get? version ds = some c from hc]
      rfl

/-! ### What stays -/

theorem get_eq_ok : r.get name version = .ok c ↔ r.get? name version = some c := by
  unfold get
  cases r.get? name version <;> simp

/-- What is found stays where it is. -/
theorem Grows.get {as : Additions} (h : Grows r as r') (hc : r.get name version = .ok c) :
    r'.get name version = .ok c := by
  rw [get_eq_ok] at hc ⊢
  rw [h.get?, hc, Option.some_or]

/-- A definition is registered again, under a name and version that are taken, exactly if it loads and
    has the checksum of the chart that is there. -/
theorem put_taken_iff (hc : r.get name version = .ok c) :
    r.put name version v = .ok (c, false, r) ↔
      ∃ c', Chart.load name version v = .ok c' ∧ c'.checksum = c.checksum := by
  rw [get_eq_ok] at hc
  have hput := put_cases name version v r
  generalize r.put name version v = a at hput
  cases hput with
  | added hload hfree =>
    rw [hc] at hfree
    cases hfree
  | again hload hfound hsame =>
    cases hc.symm.trans hfound
    exact ⟨fun _ => ⟨_, hload, hsame.symm⟩, fun _ => rfl⟩
  | conflict hload hfound hother =>
    cases hc.symm.trans hfound
    refine ⟨nofun, ?_⟩
    rintro ⟨c', hload', hsame⟩
    cases hload.symm.trans hload'
    exact absurd hsame.symm hother
  | unloaded hload =>
    refine ⟨nofun, ?_⟩
    rintro ⟨c', hload', -⟩
    cases hload.symm.trans hload'

/-- Nothing else comes of it than that it is registered again or refused. -/
theorem put_taken (hc : r.get name version = .ok c) :
    r.put name version v = .ok (c, false, r) ∨ ∃ e, r.put name version v = .error e := by
  rw [get_eq_ok] at hc
  have hput := put_cases name version v r
  generalize r.put name version v = a at hput
  cases hput with
  | added hload hfree =>
    rw [hc] at hfree
    cases hfree
  | again hload hfound =>
    cases hc.symm.trans hfound
    exact .inl rfl
  | conflict => exact .inr ⟨_, rfl⟩
  | unloaded => exact .inr ⟨_, rfl⟩

/-- A definition or a file that is refused leaves the registry as it was. -/
theorem outcome_of_refused {f : Filing} (hf : ∀ files dir, f ≠ .dir files dir)
    (h : (f.outcome yaml r).1 ≠ none) : (f.outcome yaml r).2 = r := by
  cases f with
  | put | file =>
    rw [Filing.outcome] at h ⊢
    split <;> rename_i hr
    · rw [hr] at h
      exact absurd rfl h
    · rfl
  | dir files dir => exact absurd rfl (hf files dir)

theorem ordered_nil : Ordered [] := ⟨.nil, nofun⟩

/-- However YAML is read, and whatever a new registry was asked for, refused or not: what is found in it
    is found for good. A definition under a name and version that are taken is registered again if it
    loads and has the same checksum, and refused otherwise; and a definition or a file that is refused
    changes nothing. The registry holds what was added to it, each chart once, and lists the names and
    versions of these and no others, in order. -/
theorem registered_for_good (yaml : Yaml) (fs : List Filing) :
    let r := fileAll yaml fs []
    let added := addsAll yaml fs []
    (∀ name version c, r.get name version = .ok c →
      (∀ gs, (fileAll yaml gs r).get name version = .ok c) ∧
      ∀ v, (r.put name version v = .ok (c, false, r) ↔
          ∃ c', Chart.load name version v = .ok c' ∧ c'.checksum = c.checksum) ∧
        (r.put name version v = .ok (c, false, r) ∨ ∃ e, r.put name version v = .error e)) ∧
    (∀ f : Filing, (∀ files dir, f ≠ .dir files dir) → (f.outcome yaml r).1 ≠ none →
      (f.outcome yaml r).2 = r) ∧
    (Dict.keys added).Nodup ∧ (∀ a ∈ added, ∃ v, Chart.load a.1.1 a.1.2 v = .ok a.2) ∧
    (∀ name version c, r.get name version = .ok c ↔ Dict.get? (name, version) added = some c) ∧
    (Dict.keys r.list).Pairwise (· < ·) ∧ (∀ vs ∈ r.list, vs.2.Pairwise (· < ·) ∧ vs.2 ≠ []) ∧
    ∀ name version, (∃ vs, (name, vs) ∈ r.list ∧ version ∈ vs) ↔ (name, version) ∈ Dict.keys added := by
  intro r added
  have hgrows : Grows [] added r := grows_fileAll yaml fs []
  have hordered : r.Ordered := hgrows.ordered ordered_nil
  have hfound (name : String) (version : Nat) : r.get? name version = Dict.get? (name, version) added := by
    rw [hgrows.get?]
    rfl
  refine ⟨fun name version c hc => ⟨fun gs => (grows_fileAll yaml gs r).get hc, fun v =>
    ⟨put_taken_iff hc, put_taken hc⟩⟩, fun f => outcome_of_refused, hgrows.fresh.1, hgrows.loaded,
    fun name version c => by rw [get_eq_ok, hfound], ?_, fun vs hvs => ?_, fun name version => ?_⟩
  · have hnames := hordered.names
    rwa [Dict.keys, list, List.map_map, Function.comp_def]
  · obtain ⟨ds, hds, rfl⟩ := List.mem_map.1 hvs
    obtain ⟨hsorted, hne⟩ := hordered.versions ds hds
    exact ⟨hsorted, fun hnil => hne (List.map_eq_nil_iff.1 hnil)⟩
  · rw [listed_iff hordered, hfound, ← Option.isSome_iff_exists]
    exact Dict.has_iff

/-- The definition of a light that is never lit. -/
def darkness : Value := .object [("states", .array [.object [("id", .string "Dark")]])]

/-- The same definition in block style. -/
def darknessBlock : String := "states:\n  - id: Dark\n"

/-- YAML in flow style, and certain texts in block style with what they say. -/
def yamlWith (blocks : Dict String Value) : Yaml :=
  { Yaml.flow with document? := fun text => (Dict.get? text blocks).or (Yaml.flow.document? text) }

/-- How YAML is read at the shelf. -/
def shelfYaml : Yaml := yamlWith [(darknessBlock, darkness)]

/-- A directory of three chart files, of which the second is none. -/
def shelfFiles : FileSystem where
  read? path := Dict.get? path [("charts/attic.yaml", darknessBlock), ("charts/broken.json", "["),
    ("charts/cellar.json", darkness.text)]
  files? dir := if dir = "charts" then some ["cellar.json", "broken.json", "attic.yaml"] else none

/-- A registry that was asked for a lamp. -/
def litShelf : Registry := fileAll shelfYaml [.put "lamp" 1 Session.lamp] []

/-- The lamp is there, stays whatever is asked for after that, and may be registered again; what is no
    definition is refused in its place. Of the directory only the file before the broken one is added. -/
theorem registered_litShelf :
    litShelf.get "lamp" 1 = .ok Session.lampChart ∧
    (∀ gs, (fileAll shelfYaml gs litShelf).get "lamp" 1 = .ok Session.lampChart) ∧
    litShelf.put "lamp" 1 Session.lamp = .ok (Session.lampChart, false, litShelf) ∧
    (∃ e, litShelf.put "lamp" 1 .null = .error e) ∧
    (fileAll shelfYaml [.put "lamp" 1 .null, .dir shelfFiles "charts", .put "lamp" 2 darkness]
      litShelf).list = [("attic", [1]), ("lamp", [1, 2])] := by
  obtain ⟨hstays, -⟩ := registered_for_good shelfYaml [.put "lamp" 1 Session.lamp]
  have hput : put "lamp" 1 Session.lamp [] =
      .ok (Session.lampChart, true, add "lamp" 1 Session.lampChart []) := by
    simp only [put, Session.load_lamp]
    rfl
  have hlit : litShelf = add "lamp" 1 Session.lampChart [] := by
    simp only [litShelf, fileAll, List.foldl_cons, List.foldl_nil, Filing.outcome, hput]
  have hget : litShelf.get "lamp" 1 = .ok Session.lampChart := by
    rw [get_eq_ok, hlit, get?_add_self]
  obtain ⟨hfound, hagain⟩ := hstays "lamp" 1 _ hget
  have hnull : ¬∃ c', Chart.load "lamp" 1 .null = .ok c' ∧
      c'.checksum = Session.lampChart.checksum := by
    rintro ⟨c', hload, -⟩
    have hnone : (Chart.load "lamp" 1 .null).toOption.isSome = false := by decide +kernel
    rw [hload] at hnone
    cases hnone
  exact ⟨hget, hfound, (hagain Session.lamp).1.2 ⟨_, Session.load_lamp, rfl⟩,
    (hagain .null).2.resolve_left fun h => hnull ((hagain .null).1.1 h), by decide +kernel⟩

end Registry
end Statechart
