import HostGauge.Proofs.Settings.Fields
import HostGauge.Proofs.Text.Utf8
import HostGauge.Proofs.Yaml.Scalars
import HostGauge.Settings.File
import Mathlib.Data.List.Forall2

/-!
Settings written as YAML and read back. Whatever the texts look like, they come back as texts, and
a missing computer comes back as missing.
-/
namespace HostGauge.Settings

open Yaml (ScalarStyle WrittenMember)

/-- The scalar that the value of a field is written as. -/
def yamlScalar (s : Settings) : Field → ScalarStyle × List Char
  | .pollInterval => (.plain, Numeral.write s.pollInterval.toNat)
  | .computer =>
    match s.computer with
    | some c => (ScalarStyle.ofText c.toList, c.toList)
    | none => (.plain, "null".toList)
  | .root => (ScalarStyle.ofText s.root.toList, s.root.toList)
  | .shutdownGrace => (.plain, Numeral.write s.shutdownGrace.toNat)
  | .logLevel => (ScalarStyle.ofText s.logLevel.toList, s.logLevel.toList)

theorem isValue_null : Yaml.Layout.IsValue "null\n".toList .plain "null".toList :=
  have ⟨hline, hstart, hprint⟩ := Yaml.isLine_of_isPlainAllowed (s := "null".toList) (by decide)
  Yaml.isValue_plain hline hstart fun d hd => Yaml.isAllowed_of_isPrintable (hprint d hd)

theorem isValue_yamlValue (s : Settings) (f : Field) :
    Yaml.Layout.IsValue (yamlValue s f) (yamlScalar s f).1 (yamlScalar s f).2 := by
  cases f with
  | pollInterval => exact Yaml.isValue_write _
  | computer =>
      rw [yamlValue, yamlScalar]
      cases s.computer with
      | none => exact isValue_null
      | some c => exact Yaml.isValue_scalarText _
  | root => exact Yaml.isValue_scalarText _
  | shutdownGrace => exact Yaml.isValue_write _
  | logLevel => exact Yaml.isValue_scalarText _

theorem isName_name (f : Field) : Yaml.IsName f.name.toList := by
  cases f <;> exact ⟨by decide, List.all_eq_true.mp rfl, by decide⟩

/-- The member of a field. -/
def yamlMember (s : Settings) (f : Field) : WrittenMember :=
  ⟨f.name, yamlValue s f, (yamlScalar s f).1, (yamlScalar s f).2, isName_name f,
    isValue_yamlValue s f⟩

/-- What is read of the value of a field. -/
def yamlNode (s : Settings) (f : Field) : Yaml.Node :=
  .scalar {} (yamlScalar s f).1 (yamlScalar s f).2

theorem yamlWord?_write (w : UInt64) :
    yamlWord? (.scalar {} .plain (Numeral.write w.toNat)) = some w := by
  rw [yamlWord?, if_pos (by simp), Yaml.unsigned?_write w.toNat_lt, Option.map_some,
    UInt64.ofNat_toNat]

/-- A text that would be read as nothing is not written plainly. -/
theorem yamlOptionalText?_ofText (t : String) :
    yamlOptionalText? (.scalar {} (ScalarStyle.ofText t.toList) t.toList) = some (some t) := by
  have hgiven : some (some (String.ofList t.toList)) = some (some t) := by rw [String.ofList_toList]
  rw [yamlOptionalText?]
  by_cases hstyle : ScalarStyle.ofText t.toList = .plain
  · have hplain := (Yaml.ScalarStyle.isPlainText_of_ofText hstyle)
    simp only [Yaml.Schema.isPlainText, Bool.not_eq_true', Bool.or_eq_false_iff] at hplain
    obtain ⟨⟨⟨⟨hempty, hnull⟩, -⟩, -⟩, -⟩ := hplain
    simp only [hstyle, ne_eq, not_true_eq_false, if_false, hempty, hnull, Bool.or_self,
      Bool.false_eq_true, hgiven]
  · exact (if_pos hstyle).trans hgiven

theorem reads_yamlNode (s : Settings) (f : Field) : Reads yamlReader s (yamlNode s f) f := by
  cases f with
  | pollInterval => exact yamlWord?_write _
  | computer =>
      rw [Reads, yamlNode, yamlScalar]
      cases s.computer with
      | none => rfl
      | some c => exact yamlOptionalText?_ofText c
  | root => exact congrArg some String.ofList_toList
  | shutdownGrace => exact yamlWord?_write _
  | logLevel => exact congrArg some String.ofList_toList

/-- The members of the mapping are read by the names of the fields. -/
theorem yamlMembers?_fields (s : Settings) (anchored : List (Nat × Yaml.Node))
    (fields : List Field) :
    yamlMembers? anchored (fields.map fun f => (yamlMember s f).node) =
      some (fields.map fun f => (f.name, yamlNode s f)) := by
  induction fields with
  | nil => rfl
  | cons f fields ih =>
      rw [yamlMembers?] at ih ⊢
      rw [List.map_cons, List.mapM_cons, ih]
      have hname : yamlText? (.scalar {} .plain f.name.toList) = some f.name :=
        congrArg some String.ofList_toList
      change ((yamlText? (.scalar {} .plain f.name.toList)).bind fun name =>
        some (name, yamlNode s f)).bind _ = _
      rw [hname]
      rfl

theorem ofYaml?_toYaml (s : Settings) : ofYaml? s.toYaml = some s := by
  have hlines : s.toYaml = (Field.all.map (yamlMember s)).flatMap WrittenMember.line := by
    rw [List.flatMap_map]
    rfl
  have hblank : ¬ s.toYaml.all Text.isBlank = true := by
    intro hall
    have hfirst : 'p' ∈ s.toYaml := by
      rw [toYaml, Field.all, List.flatMap_cons]
      exact List.mem_append_left _ (List.mem_append_left _ (by decide))
    exact absurd (List.all_eq_true.mp hall 'p' hfirst) (by decide)
  have hnode : Yaml.Node.ofText? s.toYaml =
      some (some (.mapping {} ((Field.all.map (yamlMember s)).map WrittenMember.node))) := by
    rw [hlines]
    exact WrittenMember.nodeOfText?_lines (by simp [Field.all])
  have hgives : List.Forall₂ (Gives yamlReader s) (Field.all.map fun f => (f.name, yamlNode s f))
      (Field.all.map some) := by
    rw [List.forall₂_map_left_iff, List.forall₂_map_right_iff, List.forall₂_same]
    exact fun f _ => .field (.byName f) (reads_yamlNode s f)
  have hsettings := ofMembers?_of_gives hgives (by decide)
  rw [reduceOption_some, only_all] at hsettings
  rw [ofYaml?, if_neg hblank, hnode]
  dsimp only
  rw [ofYamlNode?, List.map_map]
  change (yamlMembers? _ (Field.all.map fun f => (yamlMember s f).node)).bind
    (ofMembers? yamlReader) = some s
  rw [yamlMembers?_fields, Option.bind_some, hsettings]

/-- Loading what was written for settings gives these settings. -/
theorem load_yaml {s : Settings} {host : Host} {path : String}
    (hjson : Path.extension? path ≠ some "json") (htoml : Path.extension? path ≠ some "toml")
    (hread : host.readText path = .ok (s.render .yaml)) : (load host path).1 = .ok s := by
  have hpath : Format.ofPath path = .yaml := by
    rw [Format.ofPath]
    unfold Format.ofExtension
    split
    · exact absurd ‹_› hjson
    · exact absurd ‹_› htoml
    · rfl
  refine load_of_some hread ?_
  rw [hpath]
  exact ofYaml?_toYaml s

/-- Texts that look like a number, like nothing and like lines of another file come back as they
were. -/
theorem load_yaml_lookalike :
    (load (Host.holding (Settings.render
        { pollInterval := 18446744073709551615, computer := some "null", root := "0x1F",
          logLevel := " # it's\n\"---\"\n\n" } .yaml))
      "/etc/gauge.conf").1 = .ok
        { pollInterval := 18446744073709551615, computer := some "null", root := "0x1F",
          logLevel := " # it's\n\"---\"\n\n" } ∧
    (load (Host.holding (Settings.render { computer := some "", root := "\x07\u2028 " } .yaml))
      "/etc/gauge").1 = .ok { computer := some "", root := "\x07\u2028 " } :=
  ⟨load_yaml (by decide) (by decide) (Host.readText_holding _ _),
    load_yaml (by decide) (by decide) (Host.readText_holding _ _)⟩

end HostGauge.Settings
