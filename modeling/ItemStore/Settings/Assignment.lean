import ItemStore.Settings.Basic
import ItemStore.Value.Arrangement

/-
  Assignments to settings by name. A setting is read as it is when the settings are built, and a refused
  value leaves all as it was. Under a name that starts with an underscore any value is kept as it is.
  The names of what describes the settings as a whole cannot be assigned to.
-/

namespace ItemStore

/-- Settings, what is kept beside them, and the settings that were given a value. -/
structure SettingsSheet where
  settings : Settings
  kept : Entries
  given : List Setting

namespace SettingsSheet

/-- A sheet with the settings that were built from what is given. -/
def ofGiven (s : Settings) (given : Entries) : SettingsSheet where
  settings := s
  kept := []
  given := Setting.all.filter fun f => (Value.lookup f.name given).isSome

/-- A name under which any value is kept. -/
def isKeptName (name : String) : Bool := name.toList.head? == some '_'

/-- The names of what describes the settings as a whole. -/
def describingNames : List String := ["model_extra", "model_fields_set"]

/-- The sheet with a value assigned to a name. -/
def assign (sheet : SettingsSheet) (name : String) (v : Value) : Except Failure SettingsSheet :=
  if isKeptName name then .ok { sheet with kept := Value.put name v sheet.kept }
  else if describingNames.contains name then .error (.mishap .part)
  else match Setting.ofName? name with
    | none => .error (.invalid [⟨[name], .noSuchAttribute⟩])
    | some f => match sheet.settings.assign f v with
      | .ok s => .ok { sheet with settings := s, given := f :: sheet.given }
      | .error r => .error (.invalid [⟨[name], r⟩])

/-- What stands under a name; an unknown name has nothing. -/
def get (sheet : SettingsSheet) (name : String) : Value :=
  match Setting.ofName? name with
  | some f => sheet.settings.get f
  | none =>
    if name = "model_config" then .object [("validate_assignment", .bool true)]
    else if name = "model_fields_set" then
      .setOf false (sheet.given.map fun f => .text f.name)
    else Value.field name sheet.kept

/-- What is kept is found again. -/
theorem get_assign_kept {sheet sheet' : SettingsSheet} {name : String} {v : Value}
    (hk : isKeptName name = true) (hs : Setting.ofName? name = none)
    (h : sheet.assign name v = .ok sheet') : sheet'.get name = v := by
  simp only [assign, hk, if_true, Except.ok.injEq] at h
  subst h
  have h1 : name ≠ "model_config" := by rintro rfl; revert hk; decide
  have h2 : name ≠ "model_fields_set" := by rintro rfl; revert hk; decide
  simp [get, hs, h1, h2, Value.field, Value.lookup_put]

end SettingsSheet

end ItemStore
