import BookSite.Proofs.Settings.OverrideOrder
import BookSite.Proofs.Text.Digits
import BookSite.Proofs.Text.Scanning

/-!
# Proofs/Settings/WrittenSettings — settings written as overrides

    base_path=/zh
    jobs=

Settings are written with one override for each of them, and a value that is missing as the empty
text.  Put over any settings, the overrides make them those that were written.
-/

namespace BookSite

/-! ## Values as texts -/

namespace SettingKey

/-- A truth value as a text. -/
def printBool (b : Bool) : Text := if b then "true".toList else "false".toList

/-- **The text of a value.** -/
def print : (key : SettingKey) → key.Value → Text
  | sourceDir, v | targetDir, v | includingFilesDir, v => Option.elim v [] Path.text
  | basePath, v | siteBase, v => Option.elim v [] id
  | jobs, v => Option.elim v [] Text.ofNat
  | includeMode, v => IncludeMode.name v
  | filesOnly, v | generateNav, v | overwriteHomePage, v => printBool v

/-- A text that stands for itself as the value of a setting: it is not empty, and no blanks surround
it. -/
def isKept (t : Text) : Bool := !t.isEmpty && t.trim == t

/-- **A value that a text can give**: a path or a text that stands for itself, at least one worker
and no more than can be counted, or none of these. -/
def isWritable : (key : SettingKey) → key.Value → Bool
  | sourceDir, v | targetDir, v | includingFilesDir, v => Option.all (fun p => isKept p.text) v
  | basePath, v | siteBase, v => Option.all isKept v
  | jobs, v => Option.all (fun n => decide (0 < n ∧ n ≤ maxCount)) v
  | includeMode, _ | filesOnly, _ | generateNav, _ | overwriteHomePage, _ => true

theorem isKept_iff {t : Text} : isKept t = true ↔ t ≠ [] ∧ t.trim = t := by
  simp [isKept]

theorem jobsOfText?_ofNat {n : Nat} (hpos : 0 < n) (hmax : n ≤ maxCount) :
    jobsOfText? (Text.ofNat n) = some (some n) := by
  obtain ⟨m, rfl⟩ := Nat.exists_eq_succ_of_ne_zero hpos.ne'
  rw [jobsOfText?, if_neg (Text.ofNat_ne_nil _), Text.toCount?_ofNat hmax]

/-- **A value that a text can give** is given by its text. -/
theorem ofText?_print {key : SettingKey} {v : key.Value} (h : key.isWritable v = true) :
    key.ofText? (key.print v).trim = some v := by
  cases key with
  | sourceDir | targetDir | includingFilesDir =>
    rcases v with _ | p
    · rfl
    · obtain ⟨hne, htrim⟩ := isKept_iff.mp h
      change some (if p.text.trim = [] then none else some (Path.mk p.text.trim)) = some (some p)
      rw [htrim, if_neg hne]
  | basePath | siteBase =>
    rcases v with _ | t
    · rfl
    · obtain ⟨hne, htrim⟩ := isKept_iff.mp h
      change some (if t.trim = [] then none else some t.trim) = some (some t)
      rw [htrim, if_neg hne]
  | jobs =>
    rcases v with _ | n
    · rfl
    · obtain ⟨hpos, hmax⟩ := of_decide_eq_true h
      exact (congrArg jobsOfText? (Text.trim_ofNat n)).trans (jobsOfText?_ofNat hpos hmax)
  | includeMode => cases v <;> rfl
  | filesOnly | generateNav | overwriteHomePage => cases v <;> rfl

theorem mem_all (key : SettingKey) : key ∈ all := by
  cases key <;> decide

theorem equals_not_mem_name (key : SettingKey) : '=' ∉ key.name := by
  cases key <;> decide

theorem trim_name (key : SettingKey) : key.name.trim = key.name := by
  cases key <;> decide

end SettingKey

/-! ## Settings as overrides -/

namespace Settings

/-- **The override that gives a setting its value.** -/
def printed (s : Settings) (key : SettingKey) : Text := key.name ++ '=' :: key.print (s.get key)

theorem namedBy?_printed (s : Settings) (key : SettingKey) :
    SettingKey.namedBy? (s.printed key) = some key := by
  rw [SettingKey.namedBy?, printed, Text.splitOnce_append key.equals_not_mem_name]
  exact (congrArg SettingKey.ofName? key.trim_name).trans key.ofName?_name

theorem givenBy?_printed {s : Settings} {key : SettingKey}
    (h : key.isWritable (s.get key) = true) : key.givenBy? (s.printed key) = some (s.get key) := by
  rw [SettingKey.givenBy?, printed, Text.splitOnce_append key.equals_not_mem_name]
  exact (if_pos key.trim_name).trans (SettingKey.ofText?_print h)

/-- The last override of a setting is its own one, wherever it stands. -/
theorem lastFor?_printed (s : Settings) {keys : List SettingKey} {key : SettingKey}
    (h : key ∈ keys) : lastFor? key (keys.map s.printed) = some (s.printed key) := by
  have hfound : (lastFor? key (keys.map s.printed)).isSome = true := by
    rw [lastFor?, List.find?_isSome]
    refine ⟨s.printed key, List.mem_reverse.mpr (List.mem_map_of_mem h), ?_⟩
    exact SettingKey.isNamedBy_iff.mpr (s.namedBy?_printed key)
  obtain ⟨o, ho⟩ := Option.isSome_iff_exists.mp hfound
  obtain ⟨named, -, rfl⟩ := List.mem_map.mp (List.mem_reverse.mp (List.mem_of_find?_eq_some ho))
  have hnamed := SettingKey.isNamedBy_iff.mp (List.find?_some ho)
  rw [s.namedBy?_printed] at hnamed
  rw [ho, Option.some.inj hnamed]

theorem refusal?_printed {s : Settings} {key : SettingKey}
    (h : key.isWritable (s.get key) = true) : refusal? (s.printed key) = none := by
  rw [refusal?_eq_none_iff, Assignment.isOk_parse]
  exact ⟨key, by rw [givenBy?_printed h]; rfl⟩

/-- **All settings can be set by overrides**: whatever the settings are, the ten overrides that are
written for others turn them into these, in any order. -/
theorem override_printed {d : Settings} (h : ∀ key : SettingKey, key.isWritable (d.get key) = true)
    {keys : List SettingKey} (hkeys : keys.Perm SettingKey.all) (c : Settings) :
    c.override (keys.map d.printed) = (d, none) := by
  have hvalid : ∀ o ∈ keys.map d.printed, refusal? o = none := by
    intro o ho
    obtain ⟨key, -, rfl⟩ := List.mem_map.mp ho
    exact refusal?_printed (h key)
  refine Prod.ext (ext_get fun key => ?_) (snd_override hvalid c)
  rw [get_override_eq hvalid, lastFor?_printed d (hkeys.mem_iff.mpr key.mem_all), Option.bind_some,
    givenBy?_printed (h key), Option.getD_some]

/-- Settings with a blank in a path and equals signs in the base path. -/
def wordySettings : Settings where
  sourceDir := some (.ofString "my book")
  includeMode := .inline
  generateNav := false
  basePath := some "/a=b=".toList
  jobs := some 18446744073709551615

/-- Other settings are turned into these; what they set besides is taken back. -/
theorem override_printed_wordySettings :
    (∀ key : SettingKey, key.isWritable (wordySettings.get key) = true) ∧
      Settings.override { targetDir := some (.ofString "site"), jobs := some 2, filesOnly := true }
        (SettingKey.all.map wordySettings.printed) = (wordySettings, none) := by
  have hwritable : ∀ key : SettingKey, key.isWritable (wordySettings.get key) = true := by
    intro key
    cases key <;> decide +kernel
  exact ⟨hwritable, override_printed hwritable (.refl _) _⟩

end Settings

end BookSite
