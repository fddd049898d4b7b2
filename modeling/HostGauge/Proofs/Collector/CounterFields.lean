import HostGauge.Proofs.Collector.LastSample
import HostGauge.Proofs.DiskInventory.History
import HostGauge.Proofs.Traffic.Conservation

/-!
What activity and traffic are computed from: the counter fields that the files show at two samples.
A field that is no numeral is read as if the counter stood at zero. So an amount is the one between
its two fields exactly if both are numerals; where one of them is not, the device is reported all
the same, and what is reported is the distance of the other counter from zero.
-/
namespace HostGauge

/-- What a counter field is read as. -/
def Numeral.count (field : List Char) : UInt64 := (word64? field).getD 0

namespace CounterModulus

/-- The amount between two counter fields, of which there is none unless both are numerals. -/
def between? (m : CounterModulus) (before now : List Char) : Option UInt64 :=
  match Numeral.word64? before, Numeral.word64? now with
  | some old, some new => some (m.delta old new)
  | _, _ => none

/-- The amount is computed from what the two fields are read as. It is the amount between them
exactly if both are numerals. -/
structure Counts (m : CounterModulus) (before now : List Char) (amount : UInt64) : Prop where
  eq_delta : amount = m.delta (Numeral.count before) (Numeral.count now)
  between_iff : m.between? before now = some amount ↔
    (Numeral.word64? before).isSome ∧ (Numeral.word64? now).isSome

theorem counts_delta (m : CounterModulus) (before now : List Char) :
    m.Counts before now (m.delta (Numeral.count before) (Numeral.count now)) where
  eq_delta := rfl
  between_iff := by
    unfold between? Numeral.count
    cases Numeral.word64? before <;> cases Numeral.word64? now <;> simp

end CounterModulus

/-! ### Interfaces -/

/-- Where the counter of a direction stands in a row. -/
def Direction.place : Direction → ℕ
  | .received => 0
  | .sent => 8

/-- The name and the counter fields of a row. -/
def InterfaceRow.split? (line : List Char) : Option (String × List (List Char)) :=
  match Text.splitOnce ':' line with
  | none => none
  | some (name, counters) =>
    let name := Text.trim name
    let fields := Text.fields counters
    if name.isEmpty || name.any Text.isBlank || fields.length < 9 then none
    else some (String.ofList name, fields)

theorem InterfaceRow.ofLine?_eq (line : List Char) :
    ofLine? line = (split? line).map fun row =>
      ⟨row.1, Numeral.count (row.2.getD 0 []), Numeral.count (row.2.getD 8 [])⟩ := by
  unfold ofLine? split?
  cases Text.splitOnce ':' line with
  | none => rfl
  | some parts =>
      dsimp only
      by_cases hname : (Text.trim parts.1).isEmpty || (Text.trim parts.1).any Text.isBlank
      · simp only [hname, if_true, Bool.true_or, Option.map_none]
      · rcases Nat.lt_or_ge (Text.fields parts.2).length 9 with hshort | hlong
        · have hnone := List.getElem?_eq_none (Nat.le_of_lt_succ hshort)
          simp only [hname, hshort, hnone, decide_true, Bool.or_true, if_true, Option.map_none]
          cases (Text.fields parts.2)[0]? <;> rfl
        · have hfirst : 0 < (Text.fields parts.2).length := by omega
          have hninth : 8 < (Text.fields parts.2).length := hlong
          simp [hname, Nat.not_lt.mpr hlong, hfirst, hninth, Numeral.count]

namespace InterfaceSample

/-- The counter fields of the last row of an interface, unless the interface is virtual or the rows
cannot be read. -/
def fields? (host : Host) (root device : String) : Option (List (List Char)) :=
  match host.readText (Path.joinAll root ["proc", "net", "dev"]) with
  | .error _ => none
  | .ok text =>
    if host.isPresent (virtualPath root device) then none
    else (((Text.lines text).filterMap InterfaceRow.split?).reverse.find? (·.1 = device)).map (·.2)

def ofFields (host : Host) (root : String) (now : Moment) (device : String)
    (fields : List (List Char)) : InterfaceSample :=
  ⟨device, now, device ∈ Routes.read host root, Numeral.count (fields.getD 0 []),
    Numeral.count (fields.getD 8 [])⟩

theorem count_ofFields (host : Host) (root : String) (now : Moment) (device : String)
    (fields : List (List Char)) (dir : Direction) :
    (ofFields host root now device fields).count dir =
      Numeral.count (fields.getD dir.place []) := by
  cases dir <;> rfl

theorem shown?_eq (host : Host) (root : String) (now : Moment) (device : String) :
    shown? host root now device =
      (fields? host root device).map (ofFields host root now device) := by
  unfold shown? fields?
  cases host.readText (Path.joinAll root ["proc", "net", "dev"]) with
  | error cause => rfl
  | ok text =>
      dsimp only
      split
      case isTrue => rfl
      case isFalse =>
        have hrows : InterfaceRow.parse text = ((Text.lines text).filterMap InterfaceRow.split?).map
            fun row => ⟨row.1, Numeral.count (row.2.getD 0 []),
              Numeral.count (row.2.getD 8 [])⟩ := by
          rw [InterfaceRow.parse, List.map_filterMap]
          exact congrFun (congrArg List.filterMap (funext InterfaceRow.ofLine?_eq)) _
        rw [hrows, ← List.map_reverse, List.find?_map, Option.map_map, Option.map_map]
        rfl

end InterfaceSample

/-- The amounts of a record by the counter fields of the sample before, if there was one, and of the
sample now. -/
structure Traffic.FromFields (t : Traffic) (m : CounterModulus)
    (before : Option (List (List Char))) (now : List (List Char)) : Prop where
  idle : before = none → ∀ dir, t.amount dir = 0
  counts : ∀ fields ∈ before, ∀ dir : Direction,
    m.Counts (fields.getD dir.place []) (now.getD dir.place []) (t.amount dir)

namespace Traffic

variable {m : CounterModulus} {host host' : Host} {root device : String} {t : Traffic}
  {previous current : Table InterfaceSample} {now now' : Moment}

theorem fromFields_of_following? {fields : List (List Char)}
    (h : following? m (InterfaceSample.shown? host' root now' device)
      (.ofFields host root now device fields) = some t) :
    t.FromFields m (InterfaceSample.fields? host' root device) fields := by
  rw [InterfaceSample.shown?_eq] at h
  unfold following? at h
  cases hfields : InterfaceSample.fields? host' root device with
  | none =>
      simp only [hfields, Option.map_none, Option.ite_none_right_eq_some, Option.some.injEq] at h
      obtain ⟨-, rfl⟩ := h
      exact ⟨fun _ dir => amount_idle _ dir, nofun⟩
  | some before =>
      simp only [hfields, Option.map_some, Option.ite_none_right_eq_some, Option.some.injEq] at h
      obtain ⟨-, rfl⟩ := h
      refine ⟨nofun, fun fields' hfields' dir => ?_⟩
      cases hfields'
      rw [amount_since, InterfaceSample.count_ofFields, InterfaceSample.count_ofFields]
      exact m.counts_delta _ _

theorem following?_of_up (m : CounterModulus) (before : Option InterfaceSample)
    {now : InterfaceSample} (hup : now.up = true) : ∃ t, following? m before now = some t := by
  unfold following?
  cases before with
  | none => exact ⟨_, if_pos hup⟩
  | some before => exact ⟨_, if_pos (by rw [hup, Bool.true_or])⟩

section Between

variable (hprevious : InterfaceSample.readAll host' root now' = .ok previous)
  (hcurrent : InterfaceSample.readAll host root now = .ok current)

include hprevious hcurrent

theorem filter_between_fields (m : CounterModulus) (device : String) :
    (between previous current m).filter (·.device = device) =
      ((InterfaceSample.fields? host root device).bind fun fields =>
        following? m (InterfaceSample.shown? host' root now' device)
          (.ofFields host root now device fields)).toList := by
  rw [filter_between _ _ _ (Collector.named_of_readAll hcurrent),
    InterfaceSample.find?_readAll hcurrent, InterfaceSample.find?_readAll hprevious,
    InterfaceSample.shown?_eq host root now device, Option.bind_map]
  rfl

theorem fromFields_of_mem_between (ht : t ∈ between previous current m) :
    ∃ fields, InterfaceSample.fields? host root t.device = some fields ∧
      t.FromFields m (InterfaceSample.fields? host' root t.device) fields := by
  have hmem : t ∈ (between previous current m).filter (·.device = t.device) :=
    List.mem_filter.mpr ⟨ht, decide_eq_true rfl⟩
  rw [filter_between_fields hprevious hcurrent, Option.mem_toList, Option.bind_eq_some_iff] at hmem
  obtain ⟨fields, hfields, hrecord⟩ := hmem
  exact ⟨fields, hfields, fromFields_of_following? hrecord⟩

/-- An interface with a route has a record, whatever its fields hold. -/
theorem exists_mem_between (m : CounterModulus) (hup : device ∈ Routes.read host root)
    (hshown : (InterfaceSample.fields? host root device).isSome) :
    ∃ t ∈ between previous current m, t.device = device := by
  obtain ⟨fields, hfields⟩ := Option.isSome_iff_exists.mp hshown
  have hroute : (InterfaceSample.ofFields host root now device fields).up = true :=
    decide_eq_true hup
  obtain ⟨t, ht⟩ := following?_of_up m (InterfaceSample.shown? host' root now' device) hroute
  have hmem : t ∈ (between previous current m).filter (·.device = device) := by
    rw [filter_between_fields hprevious hcurrent, hfields, Option.bind_some, ht]
    exact List.mem_singleton_self t
  obtain ⟨hrecord, hname⟩ := List.mem_filter.mp hmem
  exact ⟨t, hrecord, of_decide_eq_true hname⟩

end Between

end Traffic

/-! ### Disks -/

/-- Where the operations in a direction stand in the statistics; the sectors stand two fields
later. -/
def Transfer.place : Transfer → ℕ
  | .read => 0
  | .write => 4

/-- The fields on the first line of the statistics of a device, if there are enough of them. -/
def DiskSample.fields? (host : Host) (root device : String) : Option (List (List Char)) :=
  match host.readText (statPath root device) with
  | .error _ => none
  | .ok text =>
    let fields := Text.fields ((Text.lines text).headD [])
    if fields.length < 7 then none else some fields

/-- An activity by the counter fields of the sample before and of the sample now, in sectors of one
size. -/
structure DiskActivity.FromFields (a : DiskActivity) (m : CounterModulus) (size : UInt64)
    (before now : List (List Char)) : Prop where
  operations : ∀ t : Transfer,
    m.Counts (before.getD t.place []) (now.getD t.place []) (a.operations t)
  bytes : ∀ t : Transfer, ∃ sectors,
    m.Counts (before.getD (t.place + 2) []) (now.getD (t.place + 2) []) sectors ∧
      (a.bytes t).toNat = min (sectors.toNat * size.toNat) (2 ^ 64 - 1)

namespace DiskSample

variable {host : Host} {root device : String} {size : UInt64} {now : Moment} {s : DiskSample}

theorem legible_iff : Legible host root device ↔ (fields? host root device).isSome := by
  unfold Legible fields?
  cases host.readText (statPath root device) with
  | error cause => simp
  | ok text => simp

theorem counters_of_parse {text : List Char} (h : parse device size now text = some s)
    (t : Transfer) :
    let fields := Text.fields ((Text.lines text).headD [])
    s.operations t = Numeral.count (fields.getD t.place []) ∧
      s.sectors t = Numeral.count (fields.getD (t.place + 2) []) := by
  intro fields
  unfold parse at h
  split at h
  next hfields =>
    cases h
    have hsame : fields = _ := hfields
    rw [hsame]
    cases t <;> exact ⟨rfl, rfl⟩
  next => cases h

theorem counters_of_read (h : read host root device size now = .ok s) :
    ∃ fields, fields? host root device = some fields ∧ ∀ t : Transfer,
      s.operations t = Numeral.count (fields.getD t.place []) ∧
        s.sectors t = Numeral.count (fields.getD (t.place + 2) []) := by
  obtain ⟨fields, hfields⟩ := Option.isSome_iff_exists.mp (legible_iff.mp (of_read h).1)
  refine ⟨fields, hfields, fun t => ?_⟩
  unfold fields? at hfields
  simp only [read] at h
  cases htext : host.readText (statPath root device) with
  | error cause =>
      rw [htext] at hfields
      cases hfields
  | ok text =>
      simp only [htext, Option.ite_none_left_eq_some, Option.some.injEq] at hfields
      obtain ⟨-, rfl⟩ := hfields
      simp only [htext] at h
      split at h
      next hparse =>
        cases h
        exact counters_of_parse hparse t
      next => cases h

end DiskSample

theorem DiskActivity.fromFields_since {host host' : Host} {root device : String}
    {size size' : UInt64} {now now' : Moment} {before current : DiskSample}
    (hbefore : DiskSample.read host' root device size' now' = .ok before)
    (hcurrent : DiskSample.read host root device size now = .ok current) (m : CounterModulus) :
    ∃ fields fields', DiskSample.fields? host' root device = some fields ∧
      DiskSample.fields? host root device = some fields' ∧
      (since current before m).FromFields m current.sectorSize fields fields' := by
  obtain ⟨fields, hfields, hold⟩ := DiskSample.counters_of_read hbefore
  obtain ⟨fields', hfields', hnew⟩ := DiskSample.counters_of_read hcurrent
  refine ⟨fields, fields', hfields, hfields', fun t => ?_, fun t => ?_⟩
  · rw [operations_since, (hold t).1, (hnew t).1]
    exact m.counts_delta _ _
  · refine ⟨m.delta (before.sectors t) (current.sectors t), ?_, bytes_since current before m t⟩
    rw [(hold t).2, (hnew t).2]
    exact m.counts_delta _ _

namespace Collector

variable {c : Collector} {root : String} {history : List Call} {host : Host} {now : Moment}

/-- Once a device is answered, statistics with enough fields are answered, whatever they hold. -/
theorem Grounded.answers (h : c.Grounded root) {b : Baseline} (hb : c.captured = some b)
    {device : String} (hdevice : deviceDirectory.isPrefixOf device.toList) {before : DiskSample}
    (hbefore : c.disks.saved.find? device = some before)
    (hfields : (DiskSample.fields? host root device).isSome) :
    (c.diskActivity host now device).1.isOk := by
  rw [← DiskSample.legible_iff, ← h.diskRooted] at hfields
  obtain ⟨s, hs, -⟩ := h.linked.sample_of_legible (q := ⟨host, now, device⟩) hbefore hfields
  rw [diskActivity_of_some hb hdevice,
    (DiskInventory.activity_of_sample_ok (m := b.modulus) hs).2.2, hbefore]
  rfl

theorem Renewed.diskActivity_fromFields (h : c.Renewed root history) {device : String}
    {a : DiskActivity} (ha : (c.diskActivity host now device).1 = .ok a) :
    ∃ m size call before current, c.modulus? = some m ∧
      c.disks.sectorSize host device = .ok size ∧
      LastOf (·.RenewsDisk root device) history call ∧
      DiskSample.fields? call.host root device = some before ∧
      DiskSample.fields? host root device = some current ∧ a.FromFields m size before current ∧
      ∀ host' now', (DiskSample.fields? host' root device).isSome →
        (c.diskActivity host' now' device).1.isOk := by
  by_cases hdevice : deviceDirectory.isPrefixOf device.toList
  · cases hb : c.captured with
    | none =>
        simp only [Collector.diskActivity, if_pos hdevice, hb] at ha
        cases ha
    | some b =>
        rw [diskActivity_of_some hb hdevice] at ha
        obtain ⟨before, s, hbefore, hsample, rfl⟩ := DiskInventory.exists_samples_of_answer ha
        obtain ⟨hsize, -⟩ := DiskInventory.activity_of_sample_ok (m := b.modulus) hsample
        have hread := DiskInventory.read_of_sample hsample
        rw [h.diskRooted] at hread
        obtain ⟨call, hlast, hcall⟩ := h.disk device before hdevice hbefore
        obtain ⟨fields, fields', hfields, hfields', hfrom⟩ :=
          DiskActivity.fromFields_since hcall hread b.modulus
        have hmodulus : c.modulus? = some b.modulus := by rw [modulus?, hb, Option.map_some]
        exact ⟨b.modulus, s.sectorSize, call, fields, fields', hmodulus, hsize, hlast, hfields,
          hfields', hfrom, fun _ _ => h.answers hb hdevice hbefore⟩
  · rw [diskActivity_of_other hdevice] at ha
    cases ha

theorem Renewed.traffic_fromFields (h : c.Renewed root history) {records : List Traffic}
    (hrecords : (c.traffic host now).1 = .ok records) :
    ∃ m call, c.modulus? = some m ∧ LastOf (·.RenewsInterfaces root) history call ∧
      (∀ t ∈ records, ∃ current, InterfaceSample.fields? host root t.device = some current ∧
        t.FromFields m (InterfaceSample.fields? call.host root t.device) current) ∧
      ∀ device ∈ Routes.read host root, (InterfaceSample.fields? host root device).isSome →
        ∃ t ∈ records, t.device = device := by
  cases hb : c.captured with
  | none =>
      rw [traffic_of_none hb] at hrecords
      cases hrecords
  | some b =>
      cases hread : InterfaceSample.readAll host c.root now with
      | error fault =>
          rw [traffic_of_error hb hread] at hrecords
          cases hrecords
      | ok current =>
          rw [traffic_of_ok hb hread] at hrecords
          cases hrecords
          rw [h.rooted] at hread
          obtain ⟨call, hlast, hcall⟩ := h.interfaces b hb
          have hmodulus : c.modulus? = some b.modulus := by rw [modulus?, hb, Option.map_some]
          exact ⟨b.modulus, call, hmodulus, hlast,
            fun t ht => Traffic.fromFields_of_mem_between hcall hread ht,
            fun device hup hshown => Traffic.exists_mem_between hcall hread b.modulus hup hshown⟩

/-- Whatever was asked before, an activity is computed from the fields that the statistics showed at
the last call that renews the sample of the device, and from those that they show now; and a record
of traffic likewise from those of the last row of its interface. An amount is the one between its
two fields exactly if both are numerals. A field that is no numeral is read as zero: it neither
makes a device that was answered before unavailable, nor keeps an interface with a route from being
reported. -/
theorem deltas_from_fields (root : String) (history : List Call) (host : Host) (now : Moment) :
    let c := (ofRoot root).afterCalls history
    (∀ device a, (c.diskActivity host now device).1 = .ok a →
      ∃ m size call before current, c.modulus? = some m ∧
        c.disks.sectorSize host device = .ok size ∧
        LastOf (·.RenewsDisk root device) history call ∧
        DiskSample.fields? call.host root device = some before ∧
        DiskSample.fields? host root device = some current ∧ a.FromFields m size before current ∧
        ∀ host' now', (DiskSample.fields? host' root device).isSome →
          (c.diskActivity host' now' device).1.isOk) ∧
    ∀ records, (c.traffic host now).1 = .ok records →
      ∃ m call, c.modulus? = some m ∧ LastOf (·.RenewsInterfaces root) history call ∧
        (∀ t ∈ records, ∃ current, InterfaceSample.fields? host root t.device = some current ∧
          t.FromFields m (InterfaceSample.fields? call.host root t.device) current) ∧
        ∀ device ∈ Routes.read host root, (InterfaceSample.fields? host root device).isSome →
          ∃ t ∈ records, t.device = device := by
  intro c
  have hrenewed : c.Renewed root ([] ++ history) := (renewed_ofRoot root).afterCalls history
  exact ⟨fun _ _ => hrenewed.diskActivity_fromFields, fun _ => hrenewed.traffic_fromFields⟩

/-- A counter that stood at seven is malformed: almost a whole width is reported as received. -/
theorem malformed_counter_wraps :
    let host (row : String) : Host :=
      (Tree.ofTexts [(["proc", "net", "dev"], row), (["proc", "uptime"], "1 1")]).host
    let history : List Call := [⟨host "a: 7 0 0 0 0 0 0 0 9", 0, .baseline⟩]
    let c := (ofRoot "/").afterCalls history
    let malformed := host "a: x 0 0 0 0 0 0 0 9"
    Numeral.word64? "x".toList = none ∧
      InterfaceSample.fields? malformed "/" "a" =
        some (["x", "0", "0", "0", "0", "0", "0", "0", "9"].map String.toList) ∧
      (c.traffic malformed 1).1 = .ok [⟨"a", ⟨1⟩, 18446744073709551609, 0⟩] := by
  intro host history c malformed
  exact ⟨by decide +kernel, by decide +kernel, by decide +kernel⟩

end Collector

end HostGauge
