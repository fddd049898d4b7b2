import HostGauge.Table
import Mathlib.Data.List.Basic
import Mathlib.Data.List.Induction

/-!
What a list holds of something that only some of its members have. The relation is the other side
of a partial function on the members, and keeps their order. The last of the values is what a table
made from the list holds.
-/
namespace HostGauge

variable {α β : Type*}

/-- The values of those members of a list that have one, in the order of the list. -/
inductive Selects (R : α → β → Prop) : List α → List β → Prop
  | nil : Selects R [] []
  | skip {a : α} {as : List α} {bs : List β} (h : ∀ b, ¬ R a b) (rest : Selects R as bs) :
      Selects R (a :: as) bs
  | take {a : α} {as : List α} {b : β} {bs : List β} (h : R a b) (rest : Selects R as bs) :
      Selects R (a :: as) (b :: bs)

variable {R : α → β → Prop} {f : α → Option β} {as : List α} {bs : List β}

theorem selects_filterMap (hf : ∀ a b, f a = some b ↔ R a b) (as : List α) :
    Selects R as (as.filterMap f) := by
  induction as with
  | nil => exact .nil
  | cons a as ih =>
      cases ha : f a with
      | none =>
          rw [List.filterMap_cons_none ha]
          refine .skip (fun b hb => ?_) ih
          rw [(hf a b).mpr hb] at ha
          cases ha
      | some b =>
          rw [List.filterMap_cons_some ha]
          exact .take ((hf a b).mp ha) ih

theorem selects_iff (hf : ∀ a b, f a = some b ↔ R a b) :
    Selects R as bs ↔ as.filterMap f = bs := by
  constructor
  · intro h
    induction h with
    | nil => rfl
    | @skip a as bs h _ ih =>
        have hnone : f a = none := by
          rw [Option.eq_none_iff_forall_not_mem]
          intro b hb
          exact h b ((hf a b).mp hb)
        rw [List.filterMap_cons_none hnone, ih]
    | @take a as b bs h _ ih => rw [List.filterMap_cons_some ((hf a b).mpr h), ih]
  · rintro rfl
    exact selects_filterMap hf as

/-! ### The last value -/

/-- The value of the last of those members of a list that have one. -/
def IsLast (R : α → β → Prop) (as : List α) (b : β) : Prop :=
  ∃ before a after, as = before ++ a :: after ∧ R a b ∧ ∀ other ∈ after, ∀ b, ¬ R other b

theorem forall_not_iff (hf : ∀ a b, f a = some b ↔ R a b) :
    (∀ a ∈ as, ∀ b, ¬ R a b) ↔ ∀ a ∈ as, f a = none := by
  refine forall₂_congr fun a _ => ?_
  rw [Option.eq_none_iff_forall_ne_some]
  exact forall_congr' fun b => not_congr (hf a b).symm

theorem isLast_iff (hf : ∀ a b, f a = some b ↔ R a b) {b : β} :
    IsLast R as b ↔ (as.filterMap f).getLast? = some b := by
  rw [List.getLast?_eq_some_iff]
  constructor
  · rintro ⟨before, a, after, rfl, ha, hafter⟩
    refine ⟨before.filterMap f, ?_⟩
    rw [List.filterMap_append, List.filterMap_cons_some ((hf a b).mpr ha),
      List.filterMap_eq_nil_iff.mpr ((forall_not_iff hf).mp hafter)]
  · rintro ⟨others, hvalues⟩
    obtain ⟨first, second, rfl, -, hsecond⟩ := List.filterMap_eq_append_iff.mp hvalues
    obtain ⟨middle, a, after, rfl, -, ha, hafter⟩ := List.filterMap_eq_cons_iff.mp hsecond
    refine ⟨first ++ middle, a, after, ?_, (hf a b).mp ha, ?_⟩
    · rw [List.append_assoc]
    · exact (forall_not_iff hf).mpr (List.filterMap_eq_nil_iff.mp hafter)

theorem Table.lookupEntry_reverse {γ : Type} (pairs : List (String × γ)) (key : String) :
    lookupEntry key pairs.reverse =
      (pairs.filterMap fun e => if e.1 = key then some e.2 else none).getLast? := by
  induction pairs using List.reverseRecOn with
  | nil => rfl
  | append_singleton pairs e ih =>
      rw [List.reverse_append, List.filterMap_append]
      by_cases he : e.1 = key
      · simp [lookupEntry, he]
      · simp [lookupEntry, he, ih]

/-- The table of the pairs of some members holds for a name the value of the last member that has
a pair of that name. -/
theorem Table.find?_ofList_filterMap {γ : Type} (g : α → Option (String × γ)) (as : List α)
    {key : String} {value : γ} :
    (Table.ofList (as.filterMap g)).find? key = some value ↔
      IsLast (fun a v => g a = some (key, v)) as value := by
  have hpair : ∀ a v, ((g a).bind fun e => if e.1 = key then some e.2 else none) = some v ↔
      g a = some (key, v) := by
    intro a v
    rw [Option.bind_eq_some_iff]
    constructor
    · rintro ⟨⟨name, w⟩, hg, hw⟩
      rw [Option.ite_none_right_eq_some, Option.some_inj] at hw
      obtain ⟨rfl, rfl⟩ := hw
      exact hg
    · intro hg
      exact ⟨(key, v), hg, if_pos rfl⟩
  rw [Table.find?_ofList, Table.lookupEntry_reverse, List.filterMap_filterMap, isLast_iff hpair]

end HostGauge
