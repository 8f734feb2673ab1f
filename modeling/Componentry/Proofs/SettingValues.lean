import Mathlib.Data.List.Nodup
import Componentry.Proofs.Json.Reading
import Componentry.Settings

/-!
# Componentry.Proofs.SettingValues

The value of a setting. It is the word of its variable, if there is one, and otherwise what the last
field with its key says in the settings file (`Surroundings.Gives`). The two are compared before
anything is read as true or false (`Json.Value.Reads`), so a variable hides what the file says even
where that does not read.

`gives_iff` and `value?_eq_some_iff`: as long as no key is a path, this is the last assignment to
the setting.
-/

namespace Componentry

/-! ## True and false -/

namespace SettingPath

/-! ## Keys -/

/-- A key that names a setting as it stands, without steps into it. Every key without points and
opening brackets does (`isPlain_of_not_mem`). -/
def IsPlain (key : String) : Prop := ofKey key = { setting := key }

instance : DecidablePred IsPlain := fun _ => inferInstanceAs (Decidable (_ = _))

theorem readStep?_eq_none {s : List Char} (hdot : '.' ∉ s) (hbracket : '[' ∉ s) :
    readStep? s = none := by
  unfold readStep?
  split
  · simp at hdot
  · simp at hbracket
  · rfl

theorem eq_nil_of_readSteps? {s : List Char} {steps : List Step} (hdot : '.' ∉ s)
    (hbracket : '[' ∉ s) (h : readSteps? s = some steps) : s = [] ∧ steps = [] := by
  rw [readSteps?] at h
  split at h
  · next hempty =>
    cases h
    exact ⟨List.isEmpty_iff.1 hempty, rfl⟩
  · split at h
    · cases h
    · next hr =>
      rw [readStep?_eq_none hdot hbracket] at hr
      cases hr

theorem isPlain_of_not_mem {key : String} (hdot : '.' ∉ key.toList)
    (hbracket : '[' ∉ key.toList) : IsPlain key := by
  unfold IsPlain ofKey
  cases h : parse? key with
  | none => rfl
  | some path =>
    simp only [parse?, Option.bind_eq_bind, Option.bind_eq_some_iff] at h
    obtain ⟨⟨setting, rest⟩, hname, steps, hsteps, h⟩ := h
    cases h
    unfold readName? at hname
    split at hname
    · cases hname
    · cases hname
      have hsub : ∀ c ∈ key.toList.dropWhile isNameChar, c ∈ key.toList :=
        (List.dropWhile_sublist isNameChar).subset
      obtain ⟨hrest, rfl⟩ := eq_nil_of_readSteps? (mt (hsub _) hdot) (mt (hsub _) hbracket) hsteps
      have hkey := List.takeWhile_append_dropWhile (p := isNameChar) (l := key.toList)
      rw [hrest, List.append_nil] at hkey
      rw [hkey, String.ofList_toList]
      rfl

end SettingPath

/-! ## Values of settings -/

/-- No key of the value is a path. -/
def Json.Value.PlainFields (v : Json.Value) : Prop := ∀ f ∈ v.fields, SettingPath.IsPlain f.1

instance : DecidablePred Json.Value.PlainFields := fun _ =>
  inferInstanceAs (Decidable (∀ _ ∈ _, _))

namespace Surroundings

/-- The name of a variable is `CONWIRE_`, followed by the key of a setting, in any mixture of
cases. -/
def Names (name setting : String) : Prop := lowerCase name = "conwire_" ++ setting

/-- No two variables have names that differ in cases alone, and none has a path behind the
prefix. -/
structure PlainVariables (s : Surroundings) : Prop where
  distinct : (s.environment.map fun x => lowerCase x.1).Nodup
  plain : ∀ x ∈ s.environment, ∀ key, Names x.1 key → SettingPath.IsPlain key

/-- The value of a setting, null included. -/
inductive Gives (s : Surroundings) (file : Json.Value) (setting : String) : Json.Value → Prop where
  | ofVariable {name word : String} : (name, word) ∈ s.environment → Names name setting →
      Gives s file setting (.string word)
  | ofFile {earlier later : List (String × Json.Value)} {v : Json.Value} :
      (∀ x ∈ s.environment, ¬ Names x.1 setting) →
      file.fields = earlier ++ (setting, v) :: later → (∀ f ∈ later, f.1 ≠ setting) →
      Gives s file setting v

theorem key?_eq_some_iff {name key : String} : key? name = some key ↔ Names name key := by
  have hprefix : lowerCase variablePrefix ++ "_" = "conwire_" := by decide +kernel
  rw [key?, Names, hprefix]
  rw [Option.map_eq_some_iff]
  simp only [List.isPrefixOf?_eq_some_iff_append_eq]
  constructor
  · rintro ⟨rest, hname, rfl⟩
    have hrest : (String.ofList rest).toList = rest := String.toList_ofList
    rw [← String.toList_inj, String.toList_append, hrest, hname]
  · intro h
    exact ⟨key.toList, h ▸ String.toList_append.symm, String.ofList_toList⟩

/-- An assignment to a setting itself. -/
def assign (setting : String) (v : Json.Value) : Assignment := ⟨{ setting }, v⟩

def fileAssignments (file : Json.Value) : List Assignment :=
  file.fields.map fun f => assign f.1 f.2

def variableAssignments (s : Surroundings) : List Assignment :=
  s.environment.filterMap fun x => (key? x.1).map fun key => assign key (.string x.2)

theorem assignments_eq {s : Surroundings} {file : Json.Value} (hs : s.PlainVariables)
    (hfile : file.PlainFields) :
    s.assignments file = fileAssignments file ++ s.variableAssignments := by
  have hfields : file.fields.map (fun f => (⟨.ofKey f.1, f.2⟩ : Assignment)) =
      fileAssignments file := by
    refine List.map_congr_left fun f hf => ?_
    exact congrArg (Assignment.mk · f.2) (hfile f hf)
  have hvariables : s.environment.filterMap (fun x =>
      (key? x.1).map fun key => (⟨.ofKey key, .string x.2⟩ : Assignment)) =
        s.variableAssignments := by
    refine List.filterMap_congr fun x hx => Option.map_congr fun key hkey => ?_
    exact congrArg (Assignment.mk · (.string x.2)) (hs.plain x hx key (key?_eq_some_iff.1 hkey))
  exact congrArg₂ (· ++ ·) hfields hvariables

/-- The last assignment to a setting among some. -/
def last? (assignments : List Assignment) (setting : String) : Option Assignment :=
  assignments.reverse.find? (·.path.setting == setting)

theorem last?_append (as bs : List Assignment) (setting : String) :
    last? (as ++ bs) setting = (last? bs setting).or (last? as setting) := by
  rw [last?, List.reverse_append, List.find?_append]
  rfl

theorem setting_of_last? {as : List Assignment} {setting : String} {a : Assignment}
    (h : last? as setting = some a) : a.path.setting = setting := by
  have := List.find?_some h
  exact eq_of_beq this

theorem mem_variableAssignments {s : Surroundings} {a : Assignment} :
    a ∈ s.variableAssignments ↔
      ∃ x ∈ s.environment, ∃ key, Names x.1 key ∧ a = assign key (.string x.2) := by
  simp only [variableAssignments, List.mem_filterMap, Option.map_eq_some_iff, key?_eq_some_iff]
  simp only [eq_comm]

theorem last?_variableAssignments_eq_none_iff {s : Surroundings} {setting : String} :
    last? s.variableAssignments setting = none ↔ ∀ x ∈ s.environment, ¬ Names x.1 setting := by
  rw [last?, List.find?_eq_none]
  constructor
  · intro h x hx hnames
    have hmem := mem_variableAssignments.2 ⟨x, hx, setting, hnames, rfl⟩
    exact h _ (List.mem_reverse.2 hmem) (beq_self_eq_true setting)
  · intro h a ha hsetting
    obtain ⟨x, hx, key, hnames, rfl⟩ := mem_variableAssignments.1 (List.mem_reverse.1 ha)
    obtain rfl : key = setting := eq_of_beq hsetting
    exact h x hx hnames

theorem names_of_last? {s : Surroundings} {setting : String} {a : Assignment}
    (h : last? s.variableAssignments setting = some a) :
    ∃ x ∈ s.environment, Names x.1 setting ∧ a = assign setting (.string x.2) := by
  have hmem := List.mem_reverse.1 (List.mem_of_find?_eq_some h)
  obtain ⟨x, hx, key, hnames, rfl⟩ := mem_variableAssignments.1 hmem
  obtain rfl : key = setting := setting_of_last? h
  exact ⟨x, hx, hnames, rfl⟩

/-- There is one variable of a setting at most, so it is the last one as well. -/
theorem last?_variableAssignments {s : Surroundings} (hs : s.PlainVariables) {setting : String}
    {x : String × String} (hx : x ∈ s.environment) (hnames : Names x.1 setting) :
    last? s.variableAssignments setting = some (assign setting (.string x.2)) := by
  cases h : last? s.variableAssignments setting with
  | none => exact absurd hnames (last?_variableAssignments_eq_none_iff.1 h x hx)
  | some a =>
    obtain ⟨y, hy, hnames', rfl⟩ := names_of_last? h
    rw [List.inj_on_of_nodup_map hs.distinct hx hy (hnames.trans hnames'.symm)]

theorem last?_fileAssignments_eq_some_iff {file : Json.Value} {setting : String}
    {a : Assignment} :
    last? (fileAssignments file) setting = some a ↔
      ∃ earlier v later, file.fields = earlier ++ (setting, v) :: later ∧
        (∀ f ∈ later, f.1 ≠ setting) ∧ a = assign setting v := by
  have hlast : last? (fileAssignments file) setting =
      (file.fields.reverse.find? (·.1 == setting)).map fun f => assign f.1 f.2 := by
    rw [last?, fileAssignments, ← List.map_reverse, List.find?_map]
    rfl
  rw [hlast, Option.map_eq_some_iff]
  constructor
  · rintro ⟨⟨key, v⟩, hfind, rfl⟩
    obtain ⟨hkey, later, earlier, hfields, hlater⟩ := List.find?_eq_some_iff_append.1 hfind
    obtain rfl : key = setting := eq_of_beq hkey
    refine ⟨earlier.reverse, v, later.reverse, ?_, fun f hf => ?_, rfl⟩
    · rw [← List.reverse_reverse file.fields, hfields]
      simp
    · simpa using hlater f (List.mem_reverse.1 hf)
  · rintro ⟨earlier, v, later, hfields, hlater, rfl⟩
    refine ⟨(setting, v), List.find?_eq_some_iff_append.2 ⟨beq_self_eq_true setting, ?_⟩, rfl⟩
    refine ⟨later.reverse, earlier.reverse, by simp [hfields], fun f hf => ?_⟩
    simpa using hlater f (List.mem_reverse.1 hf)

theorem gives_iff {s : Surroundings} {file : Json.Value} (hs : s.PlainVariables)
    (hfile : file.PlainFields) {setting : String} {v : Json.Value} :
    s.Gives file setting v ↔ last? (s.assignments file) setting = some (assign setting v) := by
  -- variables assign after the file, so the last assignment is that of a variable if there is one
  rw [assignments_eq hs hfile, last?_append]
  constructor
  · intro h
    cases h with
    | ofVariable hx hnames => rw [last?_variableAssignments hs hx hnames, Option.some_or]
    | ofFile hnone hfields hlater =>
      rw [last?_variableAssignments_eq_none_iff.2 hnone, Option.none_or]
      exact last?_fileAssignments_eq_some_iff.2 ⟨_, _, _, hfields, hlater, rfl⟩
  · intro h
    cases hlast : last? s.variableAssignments setting with
    | some a =>
      rw [hlast, Option.some_or] at h
      cases h
      obtain ⟨x, hx, hnames, ha⟩ := names_of_last? hlast
      cases ha
      exact .ofVariable hx hnames
    | none =>
      rw [hlast, Option.none_or] at h
      obtain ⟨earlier, w, later, hfields, hlater, ha⟩ := last?_fileAssignments_eq_some_iff.1 h
      cases ha
      exact .ofFile (last?_variableAssignments_eq_none_iff.1 hlast) hfields hlater

theorem Gives.unique {s : Surroundings} {file : Json.Value} (hs : s.PlainVariables)
    (hfile : file.PlainFields) {setting : String} {v w : Json.Value} (hv : s.Gives file setting v)
    (hw : s.Gives file setting w) : v = w :=
  congrArg Assignment.value
    (Option.some.inj (((gives_iff hs hfile).1 hv).symm.trans ((gives_iff hs hfile).1 hw)))

theorem Gives.isFinite {s : Surroundings} {file : Json.Value} (hfile : file.IsFinite)
    {setting : String} {v : Json.Value} (h : s.Gives file setting v) : v.IsFinite := by
  cases h with
  | ofVariable _ _ => simp [Json.Value.IsFinite, Json.Value.tokens, Json.Token.isFinite]
  | @ofFile earlier later v _ hfields _ =>
    have hmem : (setting, v) ∈ file.fields := by simp [hfields]
    exact hfile.field hmem

end Surroundings

end Componentry
