import HostGauge.Proofs.Counter
import HostGauge.Traffic

/-!
The records of one interface. A table of samples holds what the host shows of each interface,
and the traffic between two tables holds at most one record of it, made from its two samples.
-/
namespace HostGauge

/-- The directions in which an interface counts bytes. -/
inductive Direction where
  | received
  | sent
  deriving DecidableEq, Repr

namespace InterfaceSample

def count (s : InterfaceSample) : Direction → UInt64
  | .received => s.received
  | .sent => s.sent

/-- What a host shows of one interface: the last row of its name, unless the interface is virtual
or the rows cannot be read. -/
def shown? (host : Host) (root : String) (now : Moment) (device : String) :
    Option InterfaceSample :=
  match host.readText (Path.joinAll root ["proc", "net", "dev"]) with
  | .error _ => none
  | .ok text =>
    if host.isPresent (virtualPath root device) then none
    else ((InterfaceRow.parse text).reverse.find? (·.device = device)).map fun row =>
      ⟨device, now, device ∈ Routes.read host root, row.received, row.sent⟩

theorem device_of_shown? {host : Host} {root : String} {now : Moment} {device : String}
    {s : InterfaceSample} (h : shown? host root now device = some s) : s.device = device := by
  unfold shown? at h
  split at h
  · cases h
  · split at h
    · cases h
    · obtain ⟨row, -, rfl⟩ := Option.map_eq_some_iff.mp h
      rfl

theorem find?_ofRows (isVirtual : String → Bool) (up : List String) (now : Moment)
    (rows : List InterfaceRow) (device : String) :
    (ofRows isVirtual up now rows).find? device =
      if isVirtual device then none
      else (rows.reverse.find? (·.device = device)).map fun row =>
        ⟨device, now, device ∈ up, row.received, row.sent⟩ := by
  rw [ofRows, Table.find?_ofList, ← List.map_reverse, Table.lookupEntry_map, ← List.filter_reverse,
    List.find?_filter]
  by_cases hv : isVirtual device
  · rw [if_pos hv, List.find?_eq_none.mpr, Option.map_none]
    intro row _ hrow
    simp only [decide_eq_true_eq] at hrow
    simp [hrow.2, hv] at hrow
  · have hsame : (fun row : InterfaceRow => decide ((!isVirtual row.device) = true ∧
        decide (row.device = device) = true)) = fun row => decide (row.device = device) := by
      funext row
      by_cases hrow : row.device = device
      · simp [hrow, hv]
      · simp [hrow]
    rw [if_neg hv]
    simp only [hsame]
    cases hfound : rows.reverse.find? (·.device = device) with
    | none => rfl
    | some row =>
        have hrow : row.device = device := by simpa using List.find?_some hfound
        simp [hrow]

/-- A successful sample shows of every interface what the host shows of it. -/
theorem find?_readAll {host : Host} {root : String} {now : Moment} {t : Table InterfaceSample}
    (h : readAll host root now = .ok t) (device : String) :
    t.find? device = shown? host root now device := by
  cases hread : host.readText (Path.joinAll root ["proc", "net", "dev"]) with
  | error cause =>
      simp only [readAll, hread] at h
      cases h
  | ok text =>
      simp only [readAll, hread] at h
      cases h
      simp only [shown?, hread]
      exact find?_ofRows _ _ _ _ _

/-- A sample fails only where the rows cannot be read. -/
theorem exists_readAll_eq_error_iff (host : Host) (root : String) (now : Moment) :
    (∃ fault, readAll host root now = .error fault) ↔
      ∃ cause, host.readText (Path.joinAll root ["proc", "net", "dev"]) = .error cause := by
  cases hread : host.readText (Path.joinAll root ["proc", "net", "dev"]) with
  | error cause => simp only [readAll, hread, Except.error.injEq, exists_eq']
  | ok text => simp only [readAll, hread, reduceCtorEq, exists_false]

end InterfaceSample

namespace Traffic

def amount (t : Traffic) : Direction → UInt64
  | .received => t.received
  | .sent => t.sent

@[simp] theorem amount_idle (now : InterfaceSample) (dir : Direction) :
    (idle now).amount dir = 0 := by cases dir <;> rfl

@[simp] theorem amount_since (now before : InterfaceSample) (m : CounterModulus)
    (dir : Direction) :
    (since now before m).amount dir = m.delta (before.count dir) (now.count dir) := by
  cases dir <;> rfl

theorem amount_of_not_isActive {t : Traffic} (h : t.isActive = false) (dir : Direction) :
    t.amount dir = 0 := by
  simp only [isActive, Bool.or_eq_false_iff, decide_eq_false_iff_not, not_not] at h
  cases dir with
  | received => exact h.1
  | sent => exact h.2

/-- The record of an interface by its sample before, if there was one, and its sample now. -/
def following? (m : CounterModulus) (before : Option InterfaceSample) (now : InterfaceSample) :
    Option Traffic :=
  match before with
  | none => if now.up then some (idle now) else none
  | some before =>
    let traffic := since now before m
    if now.up || traffic.isActive then some traffic else none

theorem record?_eq (previous : Table InterfaceSample) (m : CounterModulus) (device : String)
    (now : InterfaceSample) :
    record? previous m device now = following? m (previous.find? device) now := by
  unfold record? following?
  cases previous.find? device <;> rfl

theorem device_of_following? {m : CounterModulus} {before : Option InterfaceSample}
    {now : InterfaceSample} {t : Traffic} (h : following? m before now = some t) :
    t.device = now.device := by
  cases before with
  | none =>
      simp only [following?, Option.ite_none_right_eq_some] at h
      cases h.2
      rfl
  | some before =>
      simp only [following?, Option.ite_none_right_eq_some] at h
      cases h.2
      rfl

/-- An entry under the name of its own interface has a record of that name only. -/
theorem filter_record? (previous : Table InterfaceSample) (m : CounterModulus) (device : String)
    {e : String × InterfaceSample} (named : e.2.device = e.1) :
    (record? previous m e.1 e.2).filter (·.device = device) =
      if e.1 = device then record? previous m e.1 e.2 else none := by
  rw [record?_eq]
  cases hrecord : following? m (previous.find? e.1) e.2 with
  | none => simp
  | some t => simp [Option.filter, device_of_following? hrecord, named]

theorem filter_records (previous current : Table InterfaceSample) (m : CounterModulus)
    (named : ∀ e ∈ current.entries, e.2.device = e.1) (device : String) :
    (current.entries.filterMap fun e => record? previous m e.1 e.2).filter (·.device = device) =
      ((current.find? device).bind (following? m (previous.find? device))).toList := by
  have hkey := List.filterMap_filter (p := fun e : String × InterfaceSample => e.1 = device)
    (f := fun e => record? previous m e.1 e.2) (l := current.entries)
  simp only [decide_eq_true_eq] at hkey
  rw [List.filter_filterMap,
    List.filterMap_congr fun e he => filter_record? previous m device (named e he),
    ← hkey, Table.filter_key]
  cases current.find? device with
  | none => rfl
  | some now =>
      simp only [Option.toList_some, List.map_cons, List.map_nil, record?_eq, Option.bind_some]
      cases hrecord : following? m (previous.find? device) now <;> simp [hrecord]

/-- Among the records between two tables, those of one interface are made from its samples. -/
theorem filter_between (previous current : Table InterfaceSample) (m : CounterModulus)
    (named : ∀ e ∈ current.entries, e.2.device = e.1) (device : String) :
    (between previous current m).filter (·.device = device) =
      ((current.find? device).bind (following? m (previous.find? device))).toList := by
  have hperm := (List.mergeSort_perm (current.entries.filterMap fun e => record? previous m e.1 e.2)
    fun a b => a.device ≤ b.device).filter (·.device = device)
  rw [filter_records previous current m named device] at hperm
  -- At most one record is left, so its place among the sorted ones does not matter.
  cases hrecord : (current.find? device).bind (following? m (previous.find? device)) with
  | none => rw [hrecord] at hperm; exact hperm.eq_nil
  | some t => rw [hrecord] at hperm; exact List.perm_singleton.mp hperm

end Traffic

end HostGauge
