import HostGauge.Settings.Fields
import Mathlib.Data.List.ReduceOption

/-!
What members make of settings, whatever the format: members that give fields of some settings,
no field twice, are read as these settings with the default for every other field, in whatever
order they stand and by whichever name they are given. A field given twice is refused.
-/
namespace HostGauge.Settings

/-! ### The names of fields -/

/-- The field that a name stands for, by its name or its alias; other names stand for none. -/
inductive Spells : String → Option Field → Prop
  | byName (f : Field) : Spells f.name (some f)
  | byAlias {f : Field} {name : String} (h : f.alias? = some name) : Spells name (some f)
  | other {name : String} (h : ∀ f : Field, name ≠ f.name ∧ f.alias? ≠ some name) :
      Spells name none

theorem Spells.ofName? {name : String} {field : Option Field} (h : Spells name field) :
    Field.ofName? name = field := by
  cases h with
  | byName f => cases f <;> decide
  | @byAlias f _ h =>
      cases f with
      | computer | root | shutdownGrace => cases h
      | pollInterval | logLevel =>
          rw [← Option.some.inj h]
          decide
  | other h =>
      rw [Field.ofName?, List.find?_eq_none]
      intro f _ hf
      rcases Bool.or_eq_true_iff.mp hf with hname | halias
      · exact (h f).1 (of_decide_eq_true hname).symm
      · exact (h f).2 (of_decide_eq_true halias)

/-! ### Fields with the values of some settings -/

/-- The settings with the default for every field but these. -/
def only (s : Settings) (fields : List Field) : Settings where
  pollInterval := if .pollInterval ∈ fields then s.pollInterval else ({} : Settings).pollInterval
  computer := if .computer ∈ fields then s.computer else ({} : Settings).computer
  root := if .root ∈ fields then s.root else ({} : Settings).root
  shutdownGrace :=
    if .shutdownGrace ∈ fields then s.shutdownGrace else ({} : Settings).shutdownGrace
  logLevel := if .logLevel ∈ fields then s.logLevel else ({} : Settings).logLevel

theorem only_all (s : Settings) : s.only Field.all = s := rfl

theorem reduceOption_some (fields : List Field) : (fields.map some).reduceOption = fields := by
  induction fields with
  | nil => rfl
  | cons f fields ih => rw [List.map_cons, List.reduceOption_cons_of_some, ih]

variable {α : Type} {read : ValueReader α} {s : Settings}

/-- The value is read as that of the field. -/
def Reads (read : ValueReader α) (s : Settings) (value : α) : Field → Prop
  | .pollInterval => read.word? value = some s.pollInterval
  | .computer => read.optionalText? value = some s.computer
  | .root => read.text? value = some s.root
  | .shutdownGrace => read.word? value = some s.shutdownGrace
  | .logLevel => read.text? value = some s.logLevel

/-- A member gives a field of the settings, or has a name that stands for none. -/
inductive Gives (read : ValueReader α) (s : Settings) : String × α → Option Field → Prop
  | field {name : String} {value : α} {f : Field} (hname : Spells name (some f))
      (hvalue : Reads read s value f) : Gives read s (name, value) (some f)
  | other {name : String} {value : α} (hname : Spells name none) :
      Gives read s (name, value) none

namespace Given

/-- What has been given once these fields of some settings have been. -/
def ofFields (s : Settings) (fields : List Field) : Given where
  pollInterval := if .pollInterval ∈ fields then some s.pollInterval else none
  computer := if .computer ∈ fields then some s.computer else none
  root := if .root ∈ fields then some s.root else none
  shutdownGrace := if .shutdownGrace ∈ fields then some s.shutdownGrace else none
  logLevel := if .logLevel ∈ fields then some s.logLevel else none

theorem complete_ofFields (s : Settings) (fields : List Field) :
    (ofFields s fields).complete = s.only fields := by
  simp only [complete, ofFields, only]
  congr 1 <;> split <;> rfl

theorem set?_ofFields {fields : List Field} {f : Field} (hf : f ∉ fields) {value : α}
    (h : Reads read s value f) :
    (ofFields s fields).set? read f value = some (ofFields s (fields ++ [f])) := by
  cases f <;> simp only [Reads] at h <;> simp [set?, ofFields, fill, h, hf]

/-- One member after another: the fields given so far are kept, in their order. -/
theorem foldlM_ofFields {members : List (String × α)} {marks : List (Option Field)}
    (h : List.Forall₂ (Gives read s) members marks) (before : List Field)
    (hnodup : (before ++ marks.reduceOption).Nodup) :
    members.foldlM (add? read) (ofFields s before) =
      some (ofFields s (before ++ marks.reduceOption)) := by
  induction h generalizing before with
  | nil => rw [List.reduceOption_nil, List.append_nil, List.foldlM_nil]; rfl
  | cons hm _ ih =>
      cases hm with
      | field hname hvalue =>
          rw [List.reduceOption_cons_of_some] at hnodup ⊢
          rename_i f
          have hf : f ∉ before := fun hmem =>
            (List.nodup_append.mp hnodup).2.2 f hmem f List.mem_cons_self rfl
          rw [List.append_cons] at hnodup ⊢
          rw [List.foldlM_cons, add?, hname.ofName?]
          dsimp only
          rw [set?_ofFields hf hvalue]
          exact ih (before ++ [f]) hnodup
      | other hname =>
          rw [List.reduceOption_cons_of_none] at hnodup ⊢
          rw [List.foldlM_cons, add?, hname.ofName?]
          exact ih before hnodup

/-- Whether a field has been given. -/
def has (given : Given) : Field → Bool
  | .pollInterval => given.pollInterval.isSome
  | .computer => given.computer.isSome
  | .root => given.root.isSome
  | .shutdownGrace => given.shutdownGrace.isSome
  | .logLevel => given.logLevel.isSome

theorem fill_eq_some {β : Type} {place value next : Option β} (h : fill place value = some next) :
    place = none ∧ next.isSome := by
  cases place <;> cases value <;> simp only [fill, reduceCtorEq, Option.some.injEq] at h
  exact ⟨rfl, h ▸ rfl⟩

/-- A field is given where it was not, and no other one with it. -/
theorem has_of_set? {given next : Given} {f : Field} {value : α}
    (h : given.set? read f value = some next) :
    given.has f = false ∧ ∀ g, next.has g = (decide (g = f) || given.has g) := by
  cases f <;>
  · obtain ⟨v, hfill, rfl⟩ := Option.map_eq_some_iff.mp h
    obtain ⟨hnone, hsome⟩ := fill_eq_some hfill
    refine ⟨by simp [has, hnone], fun g => ?_⟩
    cases g <;> simp [has, hsome]

theorem nodup_of_foldlM {members : List (String × α)} {marks : List (Option Field)}
    (hmarks : List.Forall₂ (fun m f => Spells m.1 f) members marks) {given next : Given}
    (h : members.foldlM (add? read) given = some next) :
    marks.reduceOption.Nodup ∧ ∀ f ∈ marks.reduceOption, given.has f = false := by
  induction hmarks generalizing given with
  | nil => exact ⟨List.nodup_nil, fun _ hf => nomatch hf⟩
  | @cons m mark rest marks hname _ ih =>
      rw [List.foldlM_cons] at h
      obtain ⟨mid, hadd, hrest⟩ := Option.bind_eq_some_iff.mp h
      obtain ⟨hnodup, hfree⟩ := ih hrest
      rw [add?, hname.ofName?] at hadd
      cases mark with
      | some f =>
          obtain ⟨hf, hmid⟩ := has_of_set? hadd
          rw [List.reduceOption_cons_of_some]
          refine ⟨List.nodup_cons.mpr ⟨fun hmem => ?_, hnodup⟩, fun g hg => ?_⟩
          · have hgiven := hfree f hmem
            rw [hmid f] at hgiven
            simp at hgiven
          · rcases List.mem_cons.mp hg with rfl | hg
            · exact hf
            · have hgiven := hfree g hg
              rw [hmid g] at hgiven
              exact (Bool.or_eq_false_iff.mp hgiven).2
      | none =>
          cases hadd
          rw [List.reduceOption_cons_of_none]
          exact ⟨hnodup, hfree⟩

end Given

/-- Members that give no field twice are read as the settings with the fields they give. -/
theorem ofMembers?_of_gives {members : List (String × α)} {marks : List (Option Field)}
    (h : List.Forall₂ (Gives read s) members marks) (hnodup : marks.reduceOption.Nodup) :
    ofMembers? read members = some (s.only marks.reduceOption) := by
  have hfold := Given.foldlM_ofFields h [] hnodup
  rw [List.nil_append] at hfold
  rw [ofMembers?, ← Given.complete_ofFields, ← Option.map_some, ← hfold]
  rfl

/-- Members that give a field twice are refused, whatever their values. -/
theorem ofMembers?_of_not_nodup {members : List (String × α)} {marks : List (Option Field)}
    (hmarks : List.Forall₂ (fun m f => Spells m.1 f) members marks)
    (h : ¬ marks.reduceOption.Nodup) : ofMembers? read members = none := by
  rw [ofMembers?, Option.map_eq_none_iff, Option.eq_none_iff_forall_ne_some]
  intro next hfold
  exact h (Given.nodup_of_foldlM hmarks hfold).1

end HostGauge.Settings
