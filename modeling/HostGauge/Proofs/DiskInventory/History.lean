import HostGauge.Proofs.Counter
import HostGauge.Proofs.DiskInventory.Cache

/-!
The history of a device since a baseline: the samples taken of it, by the baseline and then by
every query that resolves. The inventory answers a query from the last of them. So only the query
that starts an empty history has no activity to report, and the activities reported from then on
are the differences of neighbours in the history.
-/
namespace HostGauge

/-- The directions in which a device transfers data. -/
inductive Transfer where
  | read
  | write
  deriving DecidableEq, Repr

theorem toNat_saturatingMul (a b : UInt64) :
    (saturatingMul a b).toNat = min (a.toNat * b.toNat) (2 ^ 64 - 1) := by
  rw [saturatingMul, UInt64.toNat_ofNat_of_lt' (lt_of_le_of_lt (min_le_right _ _) (by decide))]
  rfl

namespace DiskSample

def operations (s : DiskSample) : Transfer → UInt64
  | .read => s.reads
  | .write => s.writes

def sectors (s : DiskSample) : Transfer → UInt64
  | .read => s.readSectors
  | .write => s.writeSectors

end DiskSample

namespace DiskActivity

def operations (a : DiskActivity) : Transfer → UInt64
  | .read => a.reads
  | .write => a.writes

def bytes (a : DiskActivity) : Transfer → UInt64
  | .read => a.bytesRead
  | .write => a.bytesWritten

@[simp] theorem operations_since (now before : DiskSample) (m : CounterModulus) (t : Transfer) :
    (since now before m).operations t = m.delta (before.operations t) (now.operations t) := by
  cases t <;> rfl

theorem bytes_since (now before : DiskSample) (m : CounterModulus) (t : Transfer) :
    ((since now before m).bytes t).toNat =
      min ((m.delta (before.sectors t) (now.sectors t)).toNat * now.sectorSize.toNat)
        (2 ^ 64 - 1) := by
  cases t <;> exact toNat_saturatingMul _ _

/-- The activities between successive samples. -/
def differences (m : CounterModulus) : List DiskSample → List DiskActivity
  | before :: now :: rest => .since now before m :: differences m (now :: rest)
  | _ => []

theorem map_operations_differences (m : CounterModulus) (first : DiskSample)
    (rest : List DiskSample) (t : Transfer) :
    ((differences m (first :: rest)).map fun a => (a.operations t).toNat) =
      m.deltas (first.operations t) (rest.map (·.operations t)) := by
  induction rest generalizing first with
  | nil => rfl
  | cons now rest ih =>
      simp only [differences, List.map_cons, operations_since, CounterModulus.deltas, ih]

/-- The operations between successive samples add up to those between the first and the last. -/
theorem sum_operations_modEq (m : CounterModulus) {samples : List DiskSample}
    {first last : DiskSample} (hfirst : samples.head? = some first)
    (hlast : samples.getLast? = some last) (t : Transfer) :
    ((((differences m samples).map fun a => (a.operations t).toNat).sum : ℕ) : ℤ) ≡
      (last.operations t).toNat - (first.operations t).toNat [ZMOD m.value.toNat] := by
  cases samples with
  | nil => cases hfirst
  | cons s rest =>
      rw [List.head?_cons, Option.some.injEq] at hfirst
      rw [List.getLast?_cons, Option.some.injEq] at hlast
      have hend : (rest.map (·.operations t)).getLastD (s.operations t) = last.operations t := by
        rw [List.getLastD_eq_getLast?, List.getLast?_map, ← hlast]
        cases rest.getLast? <;> rfl
      rw [map_operations_differences, ← hend, ← hfirst]
      exact m.sum_deltas_modEq _ _

end DiskActivity

namespace DiskInventory

variable (m : CounterModulus) (device : String)

/-- The inventory after some queries. -/
def afterQueries (d : DiskInventory) (queries : List DiskQuery) : DiskInventory :=
  queries.foldl (afterQuery m) d

/-- What the queries of a device obtain, in their order; one that fails obtains nothing. -/
def obtained {α : Type} (ask : DiskInventory → DiskQuery → Except Fault α) :
    DiskInventory → List DiskQuery → List α
  | _, [] => []
  | d, q :: rest =>
    (if q.device = device then (ask d q).toOption.toList else []) ++
      obtained ask (d.afterQuery m q) rest

/-- The samples that some queries take of a device. -/
def taken : DiskInventory → List DiskQuery → List DiskSample := obtained m device sample

/-- The samples of a device: the one saved at the start, and those taken since. -/
def history (d : DiskInventory) (queries : List DiskQuery) : List DiskSample :=
  (d.saved.find? device).toList ++ taken m device d queries

/-- The activities that some queries report of a device. -/
def activities : DiskInventory → List DiskQuery → List DiskActivity :=
  obtained m device (answer m)

variable {m device}

/-- A query adds its sample to the history, if it is for the device and takes one. -/
theorem history_cons (m : CounterModulus) (device : String) (d : DiskInventory) (q : DiskQuery)
    (rest : List DiskQuery) :
    (q.device = device ∧ (∃ s, d.sample q = .ok s ∧
        history m device d (q :: rest) =
          (d.saved.find? device).toList ++ history m device (d.afterQuery m q) rest ∧
        (d.afterQuery m q).saved.find? device = some s)) ∨
      (history m device d (q :: rest) = history m device (d.afterQuery m q) rest ∧
        (d.afterQuery m q).saved.find? device = d.saved.find? device ∧
        (q.device = device → ∃ fault, d.sample q = .error fault)) := by
  have hsaved := find?_saved_afterQuery (m := m) (d := d) (q := q) device
  by_cases hdevice : q.device = device
  · rw [if_pos hdevice] at hsaved
    cases hsample : d.sample q with
    | error fault =>
        rw [hsample] at hsaved
        refine .inr ⟨?_, hsaved, fun _ => ⟨fault, rfl⟩⟩
        simp [history, taken, obtained, hdevice, hsample, hsaved, Except.toOption]
    | ok s =>
        rw [hsample] at hsaved
        refine .inl ⟨hdevice, s, rfl, ?_, hsaved⟩
        simp [history, taken, obtained, hdevice, hsample, hsaved, Except.toOption]
  · rw [if_neg hdevice] at hsaved
    refine .inr ⟨?_, hsaved, fun h => absurd h hdevice⟩
    simp [history, taken, obtained, hdevice, hsaved]

/-- The inventory has saved the last sample of the history. -/
theorem find?_saved_afterQueries (d : DiskInventory) (queries : List DiskQuery) :
    (d.afterQueries m queries).saved.find? device = (history m device d queries).getLast? := by
  induction queries generalizing d with
  | nil =>
      cases hsaved : d.saved.find? device <;>
        simp [afterQueries, history, taken, obtained, hsaved]
  | cons q rest ih =>
      have htail : (d.afterQueries m (q :: rest)) = (d.afterQuery m q).afterQueries m rest := rfl
      rw [htail, ih]
      rcases history_cons m device d q rest with
        ⟨-, s, -, hhistory, hsaved⟩ | ⟨hhistory, -, -⟩
      · rw [hhistory, List.getLast?_append, history, hsaved, Option.toList_some,
          List.singleton_append, List.getLast?_cons, Option.some_or]
      · rw [hhistory]

/-- The activities reported are the differences of neighbours in the history. -/
theorem activities_eq_differences (d : DiskInventory) (queries : List DiskQuery) :
    activities m device d queries = DiskActivity.differences m (history m device d queries) := by
  induction queries generalizing d with
  | nil =>
      cases hsaved : d.saved.find? device <;>
        simp [activities, history, taken, obtained, hsaved, DiskActivity.differences]
  | cons q rest ih =>
      rw [activities, obtained, ← activities, ih]
      rcases history_cons m device d q rest with
        ⟨hdevice, s, hsample, hhistory, hsaved⟩ | ⟨hhistory, hsaved, hfails⟩
      · obtain ⟨-, -, hanswer⟩ := activity_of_sample_ok (m := m) hsample
        rw [hhistory, if_pos hdevice, hanswer, hdevice]
        -- The first sample of all has no neighbour before it, and its query reports nothing.
        cases hbefore : d.saved.find? device with
        | none => simp [Except.toOption]
        | some before =>
            simp [Except.toOption, history, hsaved, DiskActivity.differences]
      · rw [hhistory]
        by_cases hdevice : q.device = device
        · obtain ⟨fault, hsample⟩ := hfails hdevice
          simp [hdevice, (activity_of_sample_error (m := m) hsample).1, Except.toOption]
        · simp [hdevice]

theorem Linked.afterQueries {d : DiskInventory} (h : d.Linked) (queries : List DiskQuery) :
    (d.afterQueries m queries).Linked := by
  induction queries generalizing d with
  | nil => exact h
  | cons q rest ih => exact ih (h.afterQuery (m := m) (q := q))

theorem root_afterQueries (d : DiskInventory) (queries : List DiskQuery) :
    (d.afterQueries m queries).root = d.root := by
  induction queries generalizing d with
  | nil => rfl
  | cons q rest ih => exact (ih _).trans root_afterQuery

end DiskInventory

end HostGauge
