import CompilerRelay.Config.Reader

/-!
# What a configuration file comes to

**Input.**  Whatever stands in a file for the settings of the compiler: a table or an array.

**Form.**  `Setting.takes`: a value has the type of a setting.  `CompilerConfig.accepts`: a member of a table is no
setting, or has a value of its type.

**Algorithm.**  Whether the value of a setting can be read is seen from the value alone, and not from what was read
before it.

**Results.**
* `CompilerConfig.isSome_ofToml?`: a table can be read just when every setting in it has a value of its type.
* `CompilerConfig.ofToml?_filter`: members that are no settings change nothing.
* `CompilerConfig.ofToml?_array`: an array sets by place what a table sets by name.
* `Config.path_of_loadFrom`: a fault names the file that it is in.
-/

namespace CompilerRelay

/-- Whether a value can be read for a setting. -/
def Setting.takes (setting : Setting) (value : Toml) : Bool :=
  (setting.apply value {}).isSome

namespace CompilerConfig

/-- Whether a member of a table is no setting, or has a value that can be read for it. -/
def accepts (member : String × Toml) : Bool :=
  (settings.find? (·.name == member.1)).all (·.takes member.2)

theorem exists_read_of_mem :
    ∀ one ∈ settings, ∃ (α : Type) (read : Toml → Option α) (put : CompilerConfig → α → CompilerConfig),
      one = setting one.name read put := by
  unfold settings
  repeat refine List.forall_mem_cons.mpr ⟨⟨_, _, _, rfl⟩, ?_⟩
  exact List.forall_mem_nil _

/-- What was read before does not matter. -/
theorem isSome_apply {one : Setting} (h : one ∈ settings) (value : Toml) (config : CompilerConfig) :
    (one.apply value config).isSome = one.takes value := by
  obtain ⟨α, read, put, hone⟩ := exists_read_of_mem one h
  rw [Setting.takes, hone]
  simp [setting]

theorem isSome_applyMember (config : CompilerConfig) (member : String × Toml) :
    (applyMember config member).isSome = accepts member := by
  unfold applyMember accepts
  cases hfind : settings.find? (·.name == member.1) with
  | none => rfl
  | some one => exact isSome_apply (List.mem_of_find?_eq_some hfind) member.2 config

theorem isSome_foldlM_applyMember (members : Toml.Members) (config : CompilerConfig) :
    (members.foldlM applyMember config).isSome = members.all accepts := by
  induction members generalizing config with
  | nil => rfl
  | cons member rest ih =>
      rw [List.foldlM_cons, List.all_cons, ← isSome_applyMember config member]
      cases happly : applyMember config member with
      | none => rfl
      | some next => exact ih next

/-- A table can be read just when every setting in it has a value of its type. -/
theorem isSome_ofToml? (kind : TableKind) (members : Toml.Members) :
    (ofToml? (.table kind members)).isSome = members.all accepts :=
  isSome_foldlM_applyMember members {}

/-- Members that are no settings change nothing. -/
theorem ofToml?_filter (kind : TableKind) (members : Toml.Members) :
    ofToml? (.table kind (members.filter fun member => settings.any (·.name == member.1))) =
      ofToml? (.table kind members) := by
  simp only [ofToml?, List.foldlM_filter]
  congr 1
  funext config member
  split
  · rfl
  · next hunknown =>
      have hnone : settings.find? (·.name == member.1) = none := by
        simpa using hunknown
      rw [applyMember, hnone]
      rfl

theorem find?_name : ∀ one ∈ settings, settings.find? (·.name == one.name) = some one := by
  unfold settings
  repeat refine List.forall_mem_cons.mpr ⟨rfl, ?_⟩
  exact List.forall_mem_nil _

/-- Values that are applied to their settings are the members of a table with the names of these. -/
theorem foldlM_apply
    (pairs : List (Setting × Toml)) (hnamed : ∀ pair ∈ pairs, pair.1 ∈ settings) (config : CompilerConfig) :
    pairs.foldlM (fun config (setting, value) => setting.apply value config) config =
      (pairs.map fun pair => (pair.1.name, pair.2)).foldlM applyMember config := by
  induction pairs generalizing config with
  | nil => rfl
  | cons pair rest ih =>
      have hfirst : applyMember config (pair.1.name, pair.2) = pair.1.apply pair.2 config := by
        rw [applyMember, find?_name pair.1 (hnamed pair List.mem_cons_self)]
      rw [List.map_cons, List.foldlM_cons, List.foldlM_cons, hfirst]
      congr 1
      funext next
      exact ih (fun other hother => hnamed other (List.mem_cons_of_mem _ hother)) next

/-- An array sets by place what a table sets by name. -/
theorem ofToml?_array (kind : TableKind) (items : List Toml) :
    ofToml? (.array items) = ofToml? (.table kind ((settings.map Setting.name).zip items)) := by
  have hzip : (settings.map Setting.name).zip items = (settings.zip items).map fun pair => (pair.1.name, pair.2) :=
    List.zip_map_left
  rw [ofToml?, ofToml?, hzip]
  exact foldlM_apply _ (fun pair hpair => (List.of_mem_zip hpair).1) {}

end CompilerConfig

namespace Config

/-- A fault names the file that it is in. -/
theorem path_of_loadFrom
    {tree : FileTree} {path : Path} {fault : ConfigFault} (h : loadFrom tree path = .error fault) :
    fault.path = path := by
  unfold loadFrom at h
  split at h
  · cases h
  · split at h
    · obtain rfl := Except.error.inj h
      rfl
    · split at h
      · obtain rfl := Except.error.inj h
        rfl
      · cases h

end Config
end CompilerRelay
