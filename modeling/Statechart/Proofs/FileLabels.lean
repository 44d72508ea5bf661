import Statechart.Proofs.Registration
import Statechart.Proofs.Reload

/-! Under which name and version a chart file is registered.

    Name and version are read twice. Where the chart belongs is looked up loosely: a name that is no text
    and a version that is no whole number count as missing, and a version that is too large loses its
    upper bits. Reading the definition is strict, and takes a missing field and `null` alike for nothing
    declared. So a file for which the two readings differ is refused, and where they agree the chart is
    registered under what the file declares. -/

namespace Statechart

namespace Value

variable {name s : String} {bound n : Nat} {v : Value} {fields : Object}

theorem readText_eq_some_iff : readText v = some s ↔ v = .string s := by
  cases v <;> simp [readText, string?]

/-- Within 64 bits a natural number is read from that number alone. -/
theorem readNat_eq_some_iff (hb : bound ≤ bound64) :
    readNat bound v = some n ↔ v = .ofNat n ∧ n < bound := by
  constructor
  · intro h
    refine ⟨?_, lt_of_readNat h⟩
    unfold readNat at h
    split at h
    · rename_i m
      cases m with
      | double d => cases h
      | whole i hlo hhi =>
        simp only [Number.int?] at h
        split at h
        · cases h
          simp only [ofNat, Number.ofNat, Value.number.injEq, Number.whole.injEq]
          omega
        · cases h
    · cases h
  · rintro ⟨rfl, hn⟩
    exact readNat_ofNat hn hb

/-- Whether a field is missing, or there and `null`. -/
def Silent (name : String) (fields : Object) : Prop :=
  Dict.get? name fields = none ∨ Dict.get? name fields = some .null

/-- An optional field is read as nothing if it is silent, and else as what is read from it. -/
theorem optional_cases {α : Type} {read : Value → Option α} {o : Option α}
    (h : optional fields name read = some o) : Silent name fields ∧ o = none ∨
      ∃ v a, Dict.get? name fields = some v ∧ v ≠ .null ∧ read v = some a ∧ o = some a := by
  unfold optional at h
  split at h
  · cases h
    exact .inl ⟨.inl ‹_›, rfl⟩
  · cases h
    exact .inl ⟨.inr ‹_›, rfl⟩
  · rename_i v hnull hv
    obtain ⟨a, ha, rfl⟩ := Option.map_eq_some_iff.1 h
    exact .inr ⟨_, a, hv, hnull, ha, rfl⟩

end Value

open Value

namespace Chart

variable {name : String} {version : Nat} {v : Value} {c : Chart}

/-- A chart goes by the name and version that it was loaded under. -/
theorem label_of_load (h : load name version v = .ok c) : c.name = name ∧ c.version = version := by
  obtain ⟨d, h⟩ := compile_of_load h
  obtain ⟨o, k, targets, hb⟩ := built_of_compile h
  exact hb.label

end Chart

namespace Registry

variable {name path : String} {version : Nat} {v : Value} {fields : Object} {c : Chart}
  {created : Bool} {r r' : Registry} {yaml : Yaml} {fs : FileSystem} {d : Definition}

/-- Whether a name and a version are what the fields of a definition declare, in the file at a path: the
    text and the 32-bit number in them, the name of the file where they are silent about the name, and
    one where they are silent about the version. -/
structure Declares (path : String) (fields : Object) (name : String) (version : Nat) : Prop where
  name : Dict.get? "name" fields = some (.string name) ∨
    Silent "name" fields ∧ name = FileSystem.stem path
  version : Dict.get? "version" fields = some (.ofNat version) ∧ version < bound32 ∨
    Silent "version" fields ∧ version = 1

/-- What is declared is what the loose reading gives. -/
theorem Declares.read (h : Declares path fields name version) :
    nameOf path (.object fields) = name ∧ versionOf (.object fields) = version := by
  constructor
  · rw [nameOf, field?]
    obtain hname | ⟨hname | hname, rfl⟩ := h.name <;> rw [hname] <;> rfl
  · rw [versionOf, field?]
    obtain ⟨hversion, hlt⟩ | ⟨hversion | hversion, rfl⟩ := h.version
    · have hread : readNat bound64 (.ofNat version) = some version :=
        (readNat_eq_some_iff (Nat.le_refl _)).2 ⟨rfl, Nat.lt_trans hlt (by decide)⟩
      rw [hversion, Option.bind_some, hread]
      exact Nat.mod_eq_of_lt hlt
    · rw [hversion]
      rfl
    · rw [hversion]
      rfl

/-- What the strict reading accepts declares a name and a version. -/
theorem declares_of_read (path : String) (h : Definition.read? (.object fields) = some d) :
    ∃ name version, Declares path fields name version := by
  simp only [Definition.read?, readRecord, Option.bind_eq_bind, Option.bind_some,
    Option.bind_eq_some_iff] at h
  obtain ⟨declaredName, hname, declaredVersion, hversion, -⟩ := h
  have hname : ∃ name, Dict.get? "name" fields = some (.string name) ∨
      Silent "name" fields ∧ name = FileSystem.stem path := by
    obtain ⟨hsilent, -⟩ | ⟨v, name, hget, -, hread, -⟩ := optional_cases hname
    · exact ⟨_, .inr ⟨hsilent, rfl⟩⟩
    · exact ⟨name, .inl (readText_eq_some_iff.1 hread ▸ hget)⟩
  have hversion : ∃ version, Dict.get? "version" fields = some (.ofNat version) ∧ version < bound32 ∨
      Silent "version" fields ∧ version = 1 := by
    obtain ⟨hsilent, -⟩ | ⟨v, version, hget, -, hread, -⟩ := optional_cases hversion
    · exact ⟨_, .inr ⟨hsilent, rfl⟩⟩
    · obtain ⟨rfl, hlt⟩ := (readNat_eq_some_iff (by decide)).1 hread
      exact ⟨version, .inl ⟨hget, hlt⟩⟩
  obtain ⟨name, hname⟩ := hname
  obtain ⟨version, hversion⟩ := hversion
  exact ⟨name, version, hname, hversion⟩

/-- A definition that was registered is found under its name and version, and nothing else has
    changed. -/
theorem get?_of_put (h : r.put name version v = .ok (c, created, r')) :
    r'.get? name version = some c ∧ ∀ name' version', ¬(name' = name ∧ version' = version) →
      r'.get? name' version' = r.get? name' version' := by
  have hput := put_cases name version v r
  rw [h] at hput
  cases hput with
  | added => exact ⟨get?_add_self .., fun _ _ hne => get?_add_of_ne hne ..⟩
  | again _ hfound => exact ⟨hfound, fun _ _ _ => rfl⟩

/-- A definition can be registered if it gives a chart, and what is there already is the same. -/
theorem put_ok_iff : (∃ a, r.put name version v = .ok a) ↔
    ∃ c, Chart.load name version v = .ok c ∧
      ∀ old, r.get? name version = some old → old.checksum = c.checksum := by
  have hput := put_cases name version v r
  generalize r.put name version v = a at hput
  cases hput with
  | added hload hfree =>
    refine ⟨fun _ => ⟨_, hload, fun old hold => ?_⟩, fun _ => ⟨_, rfl⟩⟩
    rw [hfree] at hold
    cases hold
  | again hload hfound hsame =>
    refine ⟨fun _ => ⟨_, hload, fun old hold => ?_⟩, fun _ => ⟨_, rfl⟩⟩
    cases hfound.symm.trans hold
    exact hsame
  | conflict hload hfound hother =>
    refine ⟨nofun, ?_⟩
    rintro ⟨c, hc, hsame⟩
    cases hload.symm.trans hc
    exact absurd (hsame _ hfound) hother
  | unloaded hload =>
    refine ⟨nofun, ?_⟩
    rintro ⟨c, hc, -⟩
    cases hload.symm.trans hc

/-- What a file declares is what it is registered as. -/
theorem loadFile_of_declares (h : readDefinition yaml fs path = .ok (.object fields))
    (hd : Declares path fields name version) : r.loadFile yaml fs path =
      (r.put name version (.object fields)).map fun a => (a.1, a.2.2) := by
  rw [loadFile, h]
  dsimp only
  rw [hd.read.1, hd.read.2]
  cases r.put name version (.object fields) <;> rfl

/-- A file that loads declares a name and a version, and is registered as that. -/
theorem put_of_loadFile (h : readDefinition yaml fs path = .ok (.object fields))
    (hr : r.loadFile yaml fs path = .ok (c, r')) : ∃ name version created,
      Declares path fields name version ∧ r.put name version (.object fields) = .ok (c, created, r') := by
  obtain ⟨v, created, hv, hput⟩ := loadFile_eq_ok.1 hr
  cases h.symm.trans hv
  obtain ⟨c, hload, -⟩ := put_ok_iff.1 ⟨_, hput⟩
  obtain ⟨name, version, hd⟩ := declares_of_read path (Chart.of_load hload).2.1
  rw [hd.read.1, hd.read.2] at hput
  exact ⟨name, version, created, hd, hput⟩

/-- In whatever way a registry was filled, the charts in it go by what they are registered under. -/
theorem label_of_get? (requests : List Filing)
    (h : (fileAll yaml requests []).get? name version = some c) :
    c.name = name ∧ c.version = version := by
  have hgrows : Grows [] (addsAll yaml requests []) (fileAll yaml requests []) :=
    grows_fileAll yaml requests []
  rw [hgrows.get?] at h
  obtain ⟨v, hload⟩ := hgrows.loaded _ (Dict.mem_of_get? h)
  exact Chart.label_of_load hload

/-- Whether a registry refuses a file, and is as it was. -/
def Refuses (yaml : Yaml) (r : Registry) (fs : FileSystem) (path : String) : Prop :=
  ∃ e, (Filing.file fs path).outcome yaml r = (some e, r)

theorem refuses_of_not_declares (h : readDefinition yaml fs path = .ok (.object fields))
    (hd : ∀ name version, ¬Declares path fields name version) : r.Refuses yaml fs path := by
  rw [Refuses, Filing.outcome]
  cases hr : r.loadFile yaml fs path with
  | error e => exact ⟨e, rfl⟩
  | ok a =>
    obtain ⟨name, version, -, hdeclares, -⟩ := put_of_loadFile h hr
    exact absurd hdeclares (hd name version)

/-- However YAML is read, whatever a registry was asked for before, and whatever object a chart file
    holds: if the file loads, the chart goes by the name and version that the file declares, is found
    under these, and nothing else has changed. It loads exactly if the file declares a name and a
    version, its definition gives a chart, and what is registered under them already, if anything, has
    the same checksum. A name that is no text and a version that is no whole number of 32 bits are
    refused, and nothing is registered. -/
theorem labelled_as_declared (yaml : Yaml) (requests : List Filing)
    (h : readDefinition yaml fs path = .ok (.object fields)) :
    let r := fileAll yaml requests []
    (∀ c r', r.loadFile yaml fs path = .ok (c, r') →
      Declares path fields c.name c.version ∧ r'.get c.name c.version = .ok c ∧
      ∀ name version, ¬(name = c.name ∧ version = c.version) →
        r'.get? name version = r.get? name version) ∧
    ((∃ c r', r.loadFile yaml fs path = .ok (c, r')) ↔
      ∃ name version c, Declares path fields name version ∧
        Chart.load name version (.object fields) = .ok c ∧
        ∀ old, r.get? name version = some old → old.checksum = c.checksum) ∧
    (∀ v, Dict.get? "name" fields = some v → v ≠ .null → (∀ s, v ≠ .string s) →
      r.Refuses yaml fs path) ∧
    ∀ v, Dict.get? "version" fields = some v → v ≠ .null → (∀ n < bound32, v ≠ .ofNat n) →
      r.Refuses yaml fs path := by
  intro r
  refine ⟨fun c r' hr => ?_, ⟨fun ⟨c, r', hr⟩ => ?_, ?_⟩, fun v hv hnull hother => ?_,
    fun v hv hnull hother => ?_⟩
  · obtain ⟨name, version, created, hd, hput⟩ := put_of_loadFile h hr
    obtain ⟨hget, hothers⟩ := get?_of_put hput
    have hafter : fileAll yaml (requests ++ [.file fs path]) [] = r' := by
      have hlast : fileAll yaml (requests ++ [.file fs path]) [] =
          ((Filing.file fs path).outcome yaml r).2 := List.foldl_append
      rw [hlast, Filing.outcome, hr]
    obtain ⟨rfl, rfl⟩ := label_of_get? (requests ++ [.file fs path]) (hafter ▸ hget)
    exact ⟨hd, get_eq_ok.2 hget, hothers⟩
  · obtain ⟨name, version, created, hd, hput⟩ := put_of_loadFile h hr
    obtain ⟨c, hload, hsame⟩ := put_ok_iff.1 ⟨_, hput⟩
    exact ⟨name, version, c, hd, hload, hsame⟩
  · rintro ⟨name, version, c, hd, hload, hsame⟩
    obtain ⟨a, hput⟩ := put_ok_iff.2 ⟨c, hload, hsame⟩
    exact ⟨a.1, a.2.2, by rw [loadFile_of_declares h hd, hput]; rfl⟩
  · refine refuses_of_not_declares h fun name version hd => ?_
    obtain hname | ⟨hname | hname, -⟩ := hd.name <;> cases hv.symm.trans hname
    · exact hother name rfl
    · exact hnull rfl
  · refine refuses_of_not_declares h fun name version hd => ?_
    obtain ⟨hversion, hlt⟩ | ⟨hversion | hversion, -⟩ := hd.version <;> cases hv.symm.trans hversion
    · exact hother version hlt rfl
    · exact hnull rfl

/-- A light that is never lit, of a version. -/
def lightOf (version : Nat) : Value :=
  .object [("states", .array [.object [("id", .string "Dark")]]), ("version", .ofNat version)]

/-- A light of the third version in block style. -/
def thirdLight : String := "version: 3\nstates:\n  - id: Dark\n"

/-- A hall with two lights: one of the third version, and one of the first but for a bit beyond the
    32. -/
def hall : FileSystem where
  read? path := Dict.get? path [("lamp.yaml", thirdLight), ("late.json", (lightOf (bound32 + 1)).text)]
  files? _ := none

/-- How YAML is read in the hall. -/
def hallYaml : Yaml := yamlWith [(thirdLight, lightOf 3)]

/-- The fields of the definition in a file, which holds an object. -/
theorem readDefinition_eq_ok (yaml : Yaml) (fs : FileSystem) (path : String)
    (h : ((readDefinition yaml fs path).toOption.bind object?).isSome = true) :
    ∃ fields, readDefinition yaml fs path = .ok (.object fields) := by
  obtain ⟨fields, hfields⟩ := Option.isSome_iff_exists.1 h
  obtain ⟨v, hv, hobject⟩ := Option.bind_eq_some_iff.1 hfields
  cases v with
  | object => exact ⟨_, Chart.eq_ok_of_toOption hv⟩
  | null | bool | number | string | array => cases hobject

/-- The first light is registered by the name of its file, as the third version. The other one is
    refused, though what is left of its version would be free. -/
theorem labelled_hall :
    (∃ c r', loadFile hallYaml hall "lamp.yaml" [] = .ok (c, r') ∧ c.name = "lamp" ∧ c.version = 3 ∧
      r'.get "lamp" 3 = .ok c) ∧
    ∃ v, readDefinition hallYaml hall "late.json" = .ok v ∧ versionOf v = 1 ∧
      Refuses hallYaml [] hall "late.json" := by
  constructor
  · obtain ⟨fields, hread⟩ := readDefinition_eq_ok hallYaml hall "lamp.yaml" (by decide +kernel)
    have hloads : (loadFile hallYaml hall "lamp.yaml" []).toOption.map
        (fun a => (a.1.name, a.1.version)) = some ("lamp", 3) := by decide +kernel
    obtain ⟨⟨c, r'⟩, hr, hlabel⟩ := Option.map_eq_some_iff.1 hloads
    obtain ⟨hname, hversion⟩ := Prod.mk.inj hlabel
    have hr := Chart.eq_ok_of_toOption hr
    obtain ⟨-, hget, -⟩ := (labelled_as_declared hallYaml [] hread).1 c r' hr
    rw [hname, hversion] at hget
    exact ⟨c, r', hr, hname, hversion, hget⟩
  · obtain ⟨fields, hread⟩ := readDefinition_eq_ok hallYaml hall "late.json" (by decide +kernel)
    have hlate : ((readDefinition hallYaml hall "late.json").toOption.bind (field? "version")).bind
        (readNat bound64) = some (bound32 + 1) := by decide +kernel
    rw [hread] at hlate
    obtain ⟨v, hv, hnat⟩ := Option.bind_eq_some_iff.1 hlate
    obtain ⟨rfl, -⟩ := (readNat_eq_some_iff (Nat.le_refl _)).1 hnat
    have hfield : Dict.get? "version" fields = some (.ofNat (bound32 + 1)) := hv
    refine ⟨_, hread, ?_,
      (labelled_as_declared hallYaml [] hread).2.2.2 _ hfield nofun fun n hn heq => ?_⟩
    · rw [versionOf, field?, hfield]
      decide
    · rw [heq] at hnat
      have hsmall : readNat bound64 (.ofNat n) = some n :=
        (readNat_eq_some_iff (Nat.le_refl _)).2 ⟨rfl, Nat.lt_trans hn (by decide)⟩
      rw [hsmall] at hnat
      cases hnat
      exact absurd hn (by decide)

end Registry
end Statechart
