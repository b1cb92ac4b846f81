import ItemStore.Proofs.Batch.Pool
import ItemStore.Proofs.Reading
import ItemStore.Proofs.Settings.Admitted
import ItemStore.Settings.Assignment

/-
  Settings over their history. Settings are built from an environment and from what is given, and then
  values are assigned to them by name. An assignment that is refused leaves all as it was, and one that
  is accepted changes nothing but the setting of its name; so whatever was built and assigned, the
  settings keep to their bounds, requests can be cut into chunks, and there is a worker for them.

  A region that is given or assigned is not empty. A region that the environment names is a default and
  taken as it is: the settings have no region exactly if the variable of the environment is set to an
  empty text and no region was given or assigned since (`build_regionless`).

  Main statements: `regionName_afterAll_iff`, `regionName_build_iff` and `settings_endure`.
-/

namespace ItemStore

theorem Policy.mem_all (p : Policy) : p ∈ all := by cases p <;> decide

theorem Setting.name_of_ofName? {name : String} {f : Setting} (h : ofName? name = some f) :
    f.name = name := by
  unfold ofName? at h
  simpa using List.find?_some h

/-! ## Single settings -/

namespace Settings

/-- Assigning to a setting leaves the others as they are. -/
theorem get_assign_of_ne {s s' : Settings} {f g : Setting} (hne : g ≠ f) {v : Value}
    (h : s.assign f v = .ok s') : s'.get g = s.get g := by
  cases f <;> obtain ⟨x, -, rfl⟩ := exists_of_map_eq_ok h <;> cases g <;>
    first | rfl | exact absurd rfl hne

/-- Whether a value is read as a text that is not empty. -/
def IsFilled (v : Value) : Prop := ∃ s, Reading.readText v = .ok s ∧ s ≠ ""

/-- A region is assigned if it is filled, and it is filled afterwards. -/
theorem assign_regionName_iff {s : Settings} {v : Value} :
    (∃ s', s.assign .regionName v = .ok s') ↔ IsFilled v := by
  constructor
  · rintro ⟨s', h⟩
    obtain ⟨name, hname, -⟩ := exists_of_map_eq_ok h
    exact ⟨name, Reading.readNonEmpty_eq_ok_iff.1 hname⟩
  · rintro ⟨name, hname⟩
    refine ⟨{ s with regionName := name }, ?_⟩
    unfold assign
    dsimp only
    rw [Reading.readNonEmpty_eq_ok_iff.2 hname]
    rfl

theorem regionName_assign {s s' : Settings} {v : Value} (h : s.assign .regionName v = .ok s') :
    s'.regionName ≠ "" := by
  obtain ⟨name, hname, rfl⟩ := exists_of_map_eq_ok h
  exact Reading.readNonEmpty_ne hname

theorem regionName_assign_of_ne {s s' : Settings} {f : Setting} (hne : f ≠ .regionName) {v : Value}
    (h : s.assign f v = .ok s') : s'.regionName = s.regionName :=
  Value.text.inj (get_assign_of_ne hne.symm h)

/-! ## Settings that a store can work with -/

/-- Settings that a store can work with, whatever its region. -/
structure IsWorkable (s : Settings) : Prop where
  admitted : s.IsAdmitted
  optionsKey : s.optionsKey ≠ ""
  policy : s.policy ∈ Policy.all

theorem IsWorkable.assign {s s' : Settings} (hs : s.IsWorkable) {f : Setting} {v : Value}
    (h : s.assign f v = .ok s') : s'.IsWorkable := by
  refine ⟨hs.admitted.assign h, ?_, s'.policy.mem_all⟩
  by_cases hf : f = .optionsKey
  · subst hf
    obtain ⟨key, hkey, rfl⟩ := exists_of_map_eq_ok h
    exact Reading.readNonEmpty_ne hkey
  · rw [show s'.optionsKey = s.optionsKey from Value.text.inj (get_assign_of_ne (Ne.symm hf) h)]
    exact hs.optionsKey

theorem isWorkable_defaults (env : Environment) (policy : Policy) :
    (defaults env policy).IsWorkable :=
  ⟨isAdmitted_defaults env policy, (by decide : ("options" : String) ≠ ""), policy.mem_all⟩

/-- What is kept by every assignment is kept by all that are given, if none is refused. -/
theorem of_assignGiven {P : Settings → Prop} {given : Entries}
    (hassign : ∀ s f v s', P s → Value.lookup f.name given = some v → s.assign f v = .ok s' → P s')
    {fs : List Setting} {s s' : Settings} (hs : P s) (h : assignGiven given fs s = (s', [])) :
    P s' := by
  induction fs generalizing s with
  | nil =>
    cases h
    exact hs
  | cons f fs ih =>
    rw [assignGiven] at h
    split at h
    · exact ih hs h
    · next v hv =>
      split at h
      · next s₁ hs₁ => exact ih (hassign s f v s₁ hs hv hs₁) h
      · cases (Prod.mk.inj h).2

/-- What is given is assigned to the defaults, under some policy. -/
theorem exists_assignGiven {env : Environment} {given : Entries} {s : Settings}
    (h : build env given = .ok s) :
    ∃ policy, assignGiven given Setting.all (defaults env policy) = (s, []) := by
  unfold build at h
  dsimp only at h
  split at h
  · cases h
  · next policy _ =>
    refine ⟨policy, ?_⟩
    split at h
    · next heq =>
      cases h
      exact heq
    · cases h

theorem isWorkable_build {env : Environment} {given : Entries} {s : Settings}
    (h : build env given = .ok s) : s.IsWorkable := by
  obtain ⟨policy, hgiven⟩ := exists_assignGiven h
  exact of_assignGiven (fun _ _ _ _ hs _ hassign => hs.assign hassign)
    (isWorkable_defaults env policy) hgiven

/-! ## The region that settings are built with -/

theorem regionName_assignGiven {given : Entries} {fs : List Setting} {s s' : Settings}
    (h : assignGiven given fs s = (s', [])) :
    s'.regionName = "" ↔ s.regionName = "" ∧
      (.regionName ∈ fs → Value.lookup Setting.regionName.name given = none) := by
  induction fs generalizing s with
  | nil =>
    cases h
    exact ⟨fun hs => ⟨hs, fun hmem => absurd hmem List.not_mem_nil⟩, And.left⟩
  | cons f fs ih =>
    rw [assignGiven] at h
    split at h
    · next hnone =>
      rw [ih h, List.mem_cons]
      refine and_congr_right fun _ => ⟨fun hrest hmem => ?_, fun hall hmem => hall (.inr hmem)⟩
      rcases hmem with rfl | hmem
      · exact hnone
      · exact hrest hmem
    · next v hv =>
      split at h
      · next s₁ hs₁ =>
        rw [ih h]
        by_cases hf : f = .regionName
        · subst hf
          refine ⟨fun hempty => absurd hempty.1 (regionName_assign hs₁), fun hempty => ?_⟩
          rw [hempty.2 List.mem_cons_self] at hv
          cases hv
        · rw [regionName_assign_of_ne hf hs₁, List.mem_cons]
          exact and_congr_right fun _ => ⟨fun hrest hmem => hrest (hmem.resolve_left (Ne.symm hf)),
            fun hall hmem => hall (.inr hmem)⟩
      · cases (Prod.mk.inj h).2

/-- Settings are built without a region exactly if the environment names an empty one and none is
    given. -/
theorem regionName_build_iff {env : Environment} {given : Entries} {s : Settings}
    (h : build env given = .ok s) :
    s.regionName = "" ↔ env.get? "AWS_REGION" = some "" ∧
      Value.lookup Setting.regionName.name given = none := by
  obtain ⟨policy, hgiven⟩ := exists_assignGiven h
  have hdefault : (defaults env policy).regionName = "" ↔ env.get? "AWS_REGION" = some "" := by
    show (env.get? "AWS_REGION").getD "us-east-1" = "" ↔ _
    cases env.get? "AWS_REGION" with
    | none => exact ⟨fun h => absurd h (by decide), fun h => (nomatch h)⟩
    | some name => exact ⟨fun h => congrArg some h, fun h => Option.some.inj h⟩
  rw [regionName_assignGiven hgiven, hdefault]
  exact and_congr_right fun _ => ⟨fun hall => hall (Setting.mem_all _), fun hnone _ => hnone⟩

end Settings

/-! ## Histories -/

namespace SettingsSheet

/-- The sheet after an assignment; a refused one leaves it as it was. -/
def after (sheet : SettingsSheet) (a : String × Value) : SettingsSheet :=
  (sheet.assign a.1 a.2).toOption.getD sheet

/-- The sheet after some assignments, in their order. -/
def afterAll (sheet : SettingsSheet) (as : List (String × Value)) : SettingsSheet :=
  as.foldl after sheet

theorem after_of_ok {sheet sheet' : SettingsSheet} {a : String × Value}
    (h : sheet.assign a.1 a.2 = .ok sheet') : sheet.after a = sheet' := by
  unfold after
  rw [h]
  rfl

theorem after_of_error {sheet : SettingsSheet} {a : String × Value} {f : Failure}
    (h : sheet.assign a.1 a.2 = .error f) : sheet.after a = sheet := by
  unfold after
  rw [h]
  rfl

/-- An accepted assignment changes no setting, or is one to the setting of its name. -/
theorem settings_of_assign {sheet sheet' : SettingsSheet} {name : String} {v : Value}
    (h : sheet.assign name v = .ok sheet') : sheet'.settings = sheet.settings ∨
      ∃ f : Setting, f.name = name ∧ sheet.settings.assign f v = .ok sheet'.settings := by
  unfold assign at h
  split at h
  · cases h
    exact .inl rfl
  · split at h
    · cases h
    · split at h
      · cases h
      · next f hf =>
        split at h
        · next s hs =>
          cases h
          exact .inr ⟨f, Setting.name_of_ofName? hf, hs⟩
        · cases h

/-- What every assignment to a setting keeps, an assignment by name keeps. -/
theorem after_keeps {P : Settings → Prop} {sheet : SettingsSheet} (a : String × Value)
    (hassign : ∀ f s', f.name = a.1 → sheet.settings.assign f a.2 = .ok s' → P s')
    (hs : P sheet.settings) : P (sheet.after a).settings := by
  cases h : sheet.assign a.1 a.2 with
  | error f => rwa [after_of_error h]
  | ok sheet' =>
    rw [after_of_ok h]
    obtain heq | ⟨f, hname, hf⟩ := settings_of_assign h
    · rwa [heq]
    · exact hassign f _ hname hf

theorem isWorkable_afterAll (sheet : SettingsSheet) (hs : sheet.settings.IsWorkable)
    (as : List (String × Value)) : (sheet.afterAll as).settings.IsWorkable := by
  induction as generalizing sheet with
  | nil => exact hs
  | cons a as ih => exact ih _ (after_keeps a (fun _ _ _ hf => hs.assign hf) hs)

/-- An accepted assignment leaves all settings of other names as they are. -/
theorem get_of_assign {sheet sheet' : SettingsSheet} {name : String} {v : Value}
    (h : sheet.assign name v = .ok sheet') {g : Setting} (hg : g.name ≠ name) :
    sheet'.settings.get g = sheet.settings.get g := by
  obtain heq | ⟨f, rfl, hf⟩ := settings_of_assign h
  · rw [heq]
  · exact Settings.get_assign_of_ne (fun heq => hg (congrArg Setting.name heq)) hf

theorem assign_regionName (sheet : SettingsSheet) (v : Value) :
    sheet.assign Setting.regionName.name v = match sheet.settings.assign .regionName v with
      | .ok s => .ok { sheet with settings := s, given := .regionName :: sheet.given }
      | .error r => .error (.invalid [⟨[Setting.regionName.name], r⟩]) := by
  have hname : isKeptName Setting.regionName.name = false := by decide
  have hdescribing : describingNames.contains Setting.regionName.name = false := by decide
  unfold assign
  rw [hname, hdescribing, Setting.ofName?_name]
  rfl

/-- There is no region after an assignment if there was none before and it assigns none. -/
theorem regionName_after_iff (sheet : SettingsSheet) (a : String × Value) :
    (sheet.after a).settings.regionName = "" ↔ sheet.settings.regionName = "" ∧
      (a.1 = Setting.regionName.name → ¬ Settings.IsFilled a.2) := by
  by_cases hname : a.1 = Setting.regionName.name
  · have hassign := sheet.assign_regionName a.2
    rw [← hname] at hassign
    by_cases hfilled : Settings.IsFilled a.2
    · obtain ⟨s, hs⟩ := (Settings.assign_regionName_iff (s := sheet.settings)).2 hfilled
      rw [hs] at hassign
      rw [after_of_ok hassign]
      exact ⟨fun h => absurd h (Settings.regionName_assign hs), fun h => absurd hfilled (h.2 hname)⟩
    · cases hs : sheet.settings.assign .regionName a.2 with
      | ok s => exact absurd (Settings.assign_regionName_iff.1 ⟨s, hs⟩) hfilled
      | error r =>
        rw [hs] at hassign
        rw [after_of_error hassign]
        exact ⟨fun h => ⟨h, fun _ => hfilled⟩, And.left⟩
  · have hkept : (sheet.after a).settings.regionName = sheet.settings.regionName := by
      refine after_keeps (P := fun s => s.regionName = sheet.settings.regionName) a
        (fun f s' hf hs => ?_) rfl
      exact Settings.regionName_assign_of_ne (fun heq => hname (heq ▸ hf.symm)) hs
    rw [hkept]
    exact ⟨fun h => ⟨h, fun heq => absurd heq hname⟩, And.left⟩

theorem regionName_afterAll_iff (sheet : SettingsSheet) (as : List (String × Value)) :
    (sheet.afterAll as).settings.regionName = "" ↔ sheet.settings.regionName = "" ∧
      ∀ a ∈ as, a.1 = Setting.regionName.name → ¬ Settings.IsFilled a.2 := by
  induction as generalizing sheet with
  | nil => exact ⟨fun h => ⟨h, fun a ha => absurd ha List.not_mem_nil⟩, And.left⟩
  | cons a as ih =>
    rw [show sheet.afterAll (a :: as) = (sheet.after a).afterAll as from rfl, ih,
      regionName_after_iff, List.forall_mem_cons, and_assoc]

end SettingsSheet

/-! ## What follows from the bounds -/

/-- Requests are cut into chunks of a limit that is at least one: none is empty or too large, and
    together they are all requests in their order. -/
theorem Batch.chunked_within {limit : Int} (h : 1 ≤ limit) (requests : List Value) :
    ∃ cs, chunked (.int limit) (.list requests) = .ok cs ∧ cs.flatMap Prod.snd = requests ∧
      ∀ c ∈ cs, 1 ≤ c.2.length ∧ (c.2.length : Int) ≤ limit := by
  obtain ⟨n, rfl⟩ : ∃ n : Nat, limit = n + 1 := ⟨(limit - 1).toNat, by omega⟩
  have hslices : (chunks (n + 1) requests).map Prod.snd = slices n requests := by
    unfold chunks
    rw [List.map_map, Nat.add_sub_cancel]
    exact List.zipIdx_map_fst 0 _
  refine ⟨chunks (n + 1) requests, chunked_list n requests, ?_, fun c hc => ?_⟩
  · rw [List.flatMap_def, hslices, flatten_slices]
  · have hmem : c.2 ∈ slices n requests := hslices ▸ List.mem_map_of_mem hc
    obtain ⟨hpos, hle⟩ := length_le_of_mem_slices hmem
    exact ⟨hpos, by omega⟩

/-- What holds of settings that were built and then assigned to: the sheet after all assignments. -/
structure SettingsSheet.Endures (env : Settings.Environment) (given : Entries) (start : SettingsSheet)
    (as : List (String × Value)) (sheet : SettingsSheet) : Prop where
  /-- all settings but the region are within their bounds -/
  workable : sheet.settings.IsWorkable
  /-- there is no region exactly if the environment names an empty one, none is given, and every
      assignment of one was refused -/
  region : sheet.settings.regionName = "" ↔ (env.get? "AWS_REGION" = some "" ∧
    Value.lookup Setting.regionName.name given = none) ∧
      ∀ a ∈ as, a.1 = Setting.regionName.name → ¬ Settings.IsFilled a.2
  /-- without the assignments that were refused it would be the same sheet -/
  refused : ∀ before a rest f, as = before ++ a :: rest →
    (start.afterAll before).assign a.1 a.2 = .error f → sheet = start.afterAll (before ++ rest)
  /-- the next assignment that is accepted changes nothing but the setting of its name -/
  accepted : ∀ name v next, sheet.assign name v = .ok next → ∀ g : Setting, g.name ≠ name →
    next.settings.get g = sheet.settings.get g
  /-- lists of requests are cut into chunks, for writes as for gets -/
  chunks : ∀ limit, limit = sheet.settings.batchWriteLimit ∨ limit = sheet.settings.batchGetLimit →
    ∀ requests, ∃ cs, Batch.chunked (.int limit) (.list requests) = .ok cs ∧
      cs.flatMap Prod.snd = requests ∧ ∀ c ∈ cs, 1 ≤ c.2.length ∧ (c.2.length : Int) ≤ limit
  /-- there is a worker for a chunk that is not at its end -/
  workers : ∀ {σ : Type} (host : Host σ) (send : Batch.Chunk → Run σ Batch.Reply)
    (js : List Batch.Job) (s : σ), ¬ Batch.AllEnded js →
      ∃ next, Batch.Step host sheet.settings send (js, s) next
  /-- session and client are asked for with this region -/
  client : sheet.settings.sessionArguments.get? "region_name" =
      some (.text sheet.settings.regionName) ∧
    sheet.settings.clientArguments.get? "region_name" = some (.text sheet.settings.regionName)

/-- Whatever the environment, what was given and what was assigned, the settings that exist keep to
    their bounds; refused assignments leave no trace. -/
theorem SettingsSheet.settings_endure {env : Settings.Environment} {given : Entries} {built : Settings}
    (h : Settings.build env given = .ok built) (as : List (String × Value)) :
    Endures env given (ofGiven built given) as ((ofGiven built given).afterAll as) := by
  have hworkable := isWorkable_afterAll (ofGiven built given) (Settings.isWorkable_build h) as
  have hadmitted := hworkable.admitted
  refine ⟨hworkable, ?_, fun before a rest f has hf => ?_, fun name v next hnext g hg =>
    get_of_assign hnext hg, fun limit hlimit => ?_, fun host send js s hjs =>
    Batch.exists_step hadmitted.concurrency hjs s, rfl, rfl⟩
  · rw [regionName_afterAll_iff]
    exact and_congr_left fun _ => Settings.regionName_build_iff h
  · subst has
    unfold afterAll at hf ⊢
    rw [List.foldl_append, List.foldl_append, List.foldl_cons, after_of_error hf]
  · rcases hlimit with rfl | rfl
    · exact Batch.chunked_within hadmitted.writeLimit.1
    · exact Batch.chunked_within hadmitted.getLimit.1

/-- An environment that names no region, and settings given beside it. -/
def SettingsSheet.regionless : Settings.Environment :=
  [("AWS_REGION", ""), ("DYNAMODB_DEBUG_LOGGING", "True")]

/-- An empty region and too large a limit are refused, then a region is assigned. -/
def SettingsSheet.assignedRegion : List (String × Value) :=
  [("region_name", .text ""), ("batch_write_limit", .int 26), ("region_name", .text "eu-west-1")]

theorem SettingsSheet.settings_endure_region :
    ∃ built, Settings.build regionless [(.text "batch_write_limit", .text "9")] = .ok built ∧
      Endures regionless [(.text "batch_write_limit", .text "9")]
        (ofGiven built [(.text "batch_write_limit", .text "9")]) assignedRegion
        ((ofGiven built [(.text "batch_write_limit", .text "9")]).afterAll assignedRegion) :=
  ⟨_, rfl, settings_endure rfl assignedRegion⟩

/-- Settings without a region: the environment names an empty one, and nothing checks it. -/
theorem Settings.build_regionless :
    (build [("AWS_REGION", "")] []).map Settings.regionName = .ok "" := rfl

end ItemStore
