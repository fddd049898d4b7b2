import HostGauge.Proofs.Settings.Fields
import HostGauge.Proofs.Text.Utf8
import HostGauge.Proofs.Toml.Lines
import HostGauge.Settings.File

/-!
Settings written as TOML and read back. They come back as they were, or are refused where an
interval is beyond the integers of 64 bits with a sign; they never come back as other ones.
-/
namespace HostGauge.Settings

open Toml (Value WrittenAs WrittenPair)

/-- The value that is read from the text of a field, if it is not refused. -/
def tomlRead? (s : Settings) : Field → Option Value
  | .pollInterval =>
    if s.pollInterval.toNat < 2 ^ 63 then some (.integer s.pollInterval.toNat) else none
  | .computer => s.computer.map .string
  | .root => some (.string s.root)
  | .shutdownGrace =>
    if s.shutdownGrace.toNat < 2 ^ 63 then some (.integer s.shutdownGrace.toNat) else none
  | .logLevel => some (.string s.logLevel)

theorem writtenAs_tomlValue? {s : Settings} {f : Field} {text : List Char}
    (h : tomlValue? s f = some text) : WrittenAs text (tomlRead? s f) := by
  have hstring : ∀ t : String, WrittenAs (Toml.stringText t.toList) (some (.string t)) := by
    intro t
    have ht := Toml.writtenAs_stringText t.toList
    rwa [String.ofList_toList] at ht
  cases f with
  | pollInterval =>
      cases h
      exact Toml.writtenAs_write _
  | computer =>
      obtain ⟨c, hc, rfl⟩ := Option.map_eq_some_iff.mp h
      rw [tomlRead?, hc]
      exact hstring c
  | root =>
      cases h
      exact hstring _
  | shutdownGrace =>
      cases h
      exact Toml.writtenAs_write _
  | logLevel =>
      cases h
      exact hstring _

theorem bare_name (f : Field) :
    f.name.toList ≠ [] ∧ ∀ c ∈ f.name.toList, Toml.isBare c = true := by
  cases f <;> exact ⟨by decide, List.all_eq_true.mp rfl⟩

theorem tomlRead?_eq_none_iff {s : Settings} {f : Field} (hf : (tomlValue? s f).isSome) :
    tomlRead? s f = none ↔ f = .pollInterval ∧ ¬ s.pollInterval.toNat < 2 ^ 63 ∨
      f = .shutdownGrace ∧ ¬ s.shutdownGrace.toNat < 2 ^ 63 := by
  cases f with
  | pollInterval => simp [tomlRead?]
  | computer =>
      obtain ⟨c, hc⟩ := Option.isSome_iff_exists.mp hf
      obtain ⟨c, hc, -⟩ := Option.map_eq_some_iff.mp hc
      simp [tomlRead?, hc]
  | root => simp [tomlRead?]
  | shutdownGrace => simp [tomlRead?]
  | logLevel => simp [tomlRead?]

theorem tomlReader_word? (w : UInt64) : tomlReader.word? (.integer w.toNat) = some w := by
  have hrange : (decide (0 ≤ (w.toNat : ℤ)) && decide ((w.toNat : ℤ) < UInt64.size)) = true := by
    have hlt := w.toNat_lt
    simp only [Bool.and_eq_true, decide_eq_true_eq]
    exact ⟨Int.natCast_nonneg _, Int.ofNat_lt.mpr hlt⟩
  simp only [tomlReader, if_pos hrange, Int.toNat_natCast, UInt64.ofNat_toNat]

theorem reads_of_tomlRead? {s : Settings} {f : Field} {v : Value} (h : tomlRead? s f = some v) :
    Reads tomlReader s v f := by
  cases f with
  | pollInterval =>
      obtain ⟨-, hv⟩ := Option.ite_none_right_eq_some.mp h
      cases hv
      exact tomlReader_word? _
  | computer =>
      obtain ⟨c, hc, rfl⟩ := Option.map_eq_some_iff.mp h
      rw [Reads, hc]
      rfl
  | root =>
      cases h
      rfl
  | shutdownGrace =>
      obtain ⟨-, hv⟩ := Option.ite_none_right_eq_some.mp h
      cases hv
      exact tomlReader_word? _
  | logLevel =>
      cases h
      rfl

/-- The line of a field, if it is written. -/
def tomlLine (s : Settings) (f : Field) : List Char :=
  match tomlValue? s f with
  | some value => f.name.toList ++ ' ' :: '=' :: ' ' :: (value ++ ['\n'])
  | none => []

/-- The fields that are written. -/
def tomlFields (s : Settings) (fields : List Field) : List Field :=
  fields.filter fun f => (tomlValue? s f).isSome

theorem nodup_tomlFields (s : Settings) : (tomlFields s Field.all).Nodup :=
  List.Pairwise.filter _ (by decide : Field.all.Nodup)

/-- The only field that may be left out is a missing computer, which is the default. -/
theorem only_tomlFields (s : Settings) : s.only (tomlFields s Field.all) = s := by
  obtain ⟨poll, computer, root, grace, level⟩ := s
  cases computer <;> rfl

/-- The lines of fields are pairs; they are read as members that give these fields, unless one of
the values is refused. -/
theorem exists_tomlPairs (s : Settings) (fields : List Field) :
    ∃ ps : List WrittenPair, ps.flatMap WrittenPair.line = fields.flatMap (tomlLine s) ∧
      ((∀ f ∈ tomlFields s fields, tomlRead? s f ≠ none) → ∃ members,
        WrittenPair.values? ps = some members ∧
          List.Forall₂ (Gives tomlReader s) members ((tomlFields s fields).map some)) ∧
      ((∃ f ∈ tomlFields s fields, tomlRead? s f = none) → WrittenPair.values? ps = none) := by
  induction fields with
  | nil =>
      refine ⟨[], rfl, fun _ => ⟨[], rfl, .nil⟩, ?_⟩
      rintro ⟨f, hf, -⟩
      cases hf
  | cons f fields ih =>
      obtain ⟨ps, hlines, hread, hrefused⟩ := ih
      cases hvalue : tomlValue? s f with
      | none =>
          have hfields : tomlFields s (f :: fields) = tomlFields s fields :=
            List.filter_cons_of_neg (by simp [hvalue])
          have hline : tomlLine s f = [] := by rw [tomlLine, hvalue]
          rw [hfields, List.flatMap_cons, hline, List.nil_append]
          exact ⟨ps, hlines, hread, hrefused⟩
      | some text =>
          have hfields : tomlFields s (f :: fields) = f :: tomlFields s fields :=
            List.filter_cons_of_pos (by simp [hvalue])
          have hline : tomlLine s f = f.name.toList ++ ' ' :: '=' :: ' ' :: (text ++ ['\n']) := by
            rw [tomlLine, hvalue]
          -- the pair of the line, whether its value is read or refused
          let p : WrittenPair :=
            ⟨f.name, text, tomlRead? s f, bare_name f, writtenAs_tomlValue? hvalue⟩
          refine ⟨p :: ps, ?_, ?_, ?_⟩
          · rw [List.flatMap_cons, List.flatMap_cons, hlines, hline]
            rfl
          · rw [hfields]
            intro hall
            obtain ⟨members, hmembers, hgives⟩ :=
              hread fun g hg => hall g (List.mem_cons_of_mem _ hg)
            obtain ⟨v, hv⟩ := Option.ne_none_iff_exists'.mp (hall f List.mem_cons_self)
            refine ⟨(f.name, v) :: members, ?_,
              .cons (.field (.byName f) (reads_of_tomlRead? hv)) hgives⟩
            rw [WrittenPair.values?] at hmembers ⊢
            rw [List.mapM_cons, hmembers]
            simp [p, hv]
          · rw [hfields]
            rintro ⟨g, hg, hnone⟩
            rw [WrittenPair.values?, List.mapM_cons]
            rcases List.mem_cons.mp hg with rfl | hg
            · simp [p, hnone]
            · have hrest := hrefused ⟨g, hg, hnone⟩
              rw [WrittenPair.values?] at hrest
              rw [hrest]
              cases p.value <;> rfl

/-- Loading what was written for settings gives these settings, or an error if one of the
intervals is beyond the integers of the format. -/
theorem load_toml {s : Settings} {host : Host} {path : String}
    (hformat : Path.extension? path = some "toml")
    (hread : host.readText path = .ok (s.render .toml)) :
    (load host path).1 =
      if s.pollInterval.toNat < 2 ^ 63 ∧ s.shutdownGrace.toNat < 2 ^ 63 then .ok s
      else .error (.malformed .toml) := by
  have hpath : Format.ofPath path = .toml := by rw [Format.ofPath, hformat]; rfl
  obtain ⟨ps, hlines, hmembers, hrefused⟩ := exists_tomlPairs s Field.all
  have hdocument : ofText? (Format.ofPath path) (s.render .toml) =
      (WrittenPair.values? ps).bind (ofMembers? tomlReader) := by
    rw [hpath]
    change (Toml.Document.parse? (Field.all.flatMap (tomlLine s))).bind _ = _
    rw [← hlines, WrittenPair.parse?_lines]
    cases WrittenPair.values? ps with
    | none => rfl
    | some pairs =>
        change ofMembers? tomlReader (pairs ++ []) = _
        rw [List.append_nil]
        rfl
  split
  case isTrue hfits =>
    have hall : ∀ f ∈ tomlFields s Field.all, tomlRead? s f ≠ none := by
      intro f hf hnone
      rcases (tomlRead?_eq_none_iff (List.mem_filter.mp hf).2).mp hnone with h | h
      · exact h.2 hfits.1
      · exact h.2 hfits.2
    obtain ⟨members, hvalues, hgives⟩ := hmembers hall
    have hfields := reduceOption_some (tomlFields s Field.all)
    have hnodup := nodup_tomlFields s
    rw [← hfields] at hnodup
    have hsettings := ofMembers?_of_gives hgives hnodup
    rw [hfields, only_tomlFields] at hsettings
    exact load_of_some hread (hdocument.trans (by rw [hvalues, Option.bind_some, hsettings]))
  case isFalse hfits =>
    have hnone : ∃ f ∈ tomlFields s Field.all, tomlRead? s f = none := by
      by_cases hpoll : s.pollInterval.toNat < 2 ^ 63
      · refine ⟨.shutdownGrace, List.mem_filter.mpr ⟨by decide, rfl⟩, ?_⟩
        exact (tomlRead?_eq_none_iff rfl).mpr (.inr ⟨rfl, fun hgrace => hfits ⟨hpoll, hgrace⟩⟩)
      · refine ⟨.pollInterval, List.mem_filter.mpr ⟨by decide, rfl⟩, ?_⟩
        exact (tomlRead?_eq_none_iff rfl).mpr (.inl ⟨rfl, hpoll⟩)
    rw [load_of_none hread (hdocument.trans (by rw [hrefused hnone, Option.bind_none])), hpath]

/-- A text with a line feed, both kinds of quotes and a control character comes back as it was; the
first interval beyond the integers of the format does not come back. -/
theorem load_toml_quoted :
    (load (Host.holding (Settings.render { computer := some "it's\n\"\x01\"" } .toml))
      "/etc/gauge.toml").1 = .ok { computer := some "it's\n\"\x01\"" } ∧
    (load (Host.holding (Settings.render { pollInterval := 9223372036854775808 } .toml))
      "/etc/gauge.toml").1 = .error (.malformed .toml) := by
  have hread : ∀ s : Settings, (load (Host.holding (s.render .toml)) "/etc/gauge.toml").1 = _ :=
    fun s => load_toml (by decide) (Host.readText_holding _ _)
  exact ⟨(hread _).trans (if_pos (by decide)), (hread _).trans (if_neg (by decide))⟩

end HostGauge.Settings
