import HostGauge.Host.Tree
import HostGauge.Proofs.Collector.Step
import HostGauge.Proofs.Traffic.Records

/-!
Conservation of traffic over a run. The samples of one interface form a history: what each
successful call shows of it and what the call reports for it. Each report is made from two
neighbours in that history, so the amounts reported while the interface stays in view add up to
what its counters moved. Calls that fail leave no trace.
-/
namespace HostGauge

/-- A call for the traffic: the host that is read, and when. -/
structure TrafficCall where
  host : Host
  now : Moment

/-- A successful sample as one interface sees it: what the host shows of the interface, and the
records that the call reports for it. -/
structure Sighting where
  sample : Option InterfaceSample
  records : List Traffic
  deriving DecidableEq, Repr

/-- What one interface sees of a call that reported these records. -/
def TrafficCall.sighting (call : TrafficCall) (root device : String) (records : List Traffic) :
    Sighting where
  sample := InterfaceSample.shown? call.host root call.now device
  records := records.filter (·.device = device)

namespace Sighting

/-- The bytes reported; a call that omits the interface counts as zero. -/
def reported (dir : Direction) (s : Sighting) : ℕ :=
  (s.records.map fun t => (t.amount dir).toNat).sum

/-- The readings of a counter, where the interface is shown. -/
def counts (dir : Direction) (part : List Sighting) : List UInt64 :=
  part.filterMap fun s => s.sample.map (·.count dir)

/-- A maximal part of consecutive samples in which the interface is shown. -/
structure IsStretch (history stretch : List Sighting) : Prop where
  shown : ∀ s ∈ stretch, s.sample.isSome
  maximal : ∃ before after, history = before ++ stretch ++ after ∧
    (∀ s ∈ before.getLast?, s.sample = none) ∧ ∀ s ∈ after.head?, s.sample = none

/-- What is reported over a stretch is what the counter moved, modulo its width, and the true
amount where the true totals behind the readings never move a whole width between two samples. -/
structure Conserves (m : CounterModulus) (dir : Direction) (stretch : List Sighting) : Prop where
  modEq : ∀ first ∈ (counts dir stretch).head?, ∀ last ∈ (counts dir stretch).getLast?,
    ((stretch.map (reported dir)).sum : ℤ) ≡ last.toNat - first.toNat [ZMOD m.value.toNat]
  exact : ∀ totals, m.Totals (counts dir stretch) totals →
    ∀ first ∈ totals.head?, ∀ last ∈ totals.getLast?,
      first + (stretch.map (reported dir)).sum = last

/-- The records of a sample are made from it and from the sample right before it. -/
def Follows (s : Sighting) (m : CounterModulus) (before : Sighting) : Prop :=
  s.records = (s.sample.bind (Traffic.following? m before.sample)).toList

variable {m : CounterModulus} {before s : Sighting} {x y : InterfaceSample}

theorem Follows.reported_eq (h : s.Follows m before) (hx : before.sample = some x)
    (hy : s.sample = some y) (dir : Direction) :
    s.reported dir = (m.delta (x.count dir) (y.count dir)).toNat := by
  unfold Follows at h
  simp only [hx, hy, Option.bind_some, Traffic.following?] at h
  split at h
  case isTrue => simp [reported, h]
  case isFalse idle =>
    -- An omitted record belongs to counters that did not move.
    simp only [Bool.or_eq_true, not_or, Bool.not_eq_true] at idle
    have hzero := Traffic.amount_of_not_isActive idle.2 dir
    rw [Traffic.amount_since] at hzero
    simp [reported, h, hzero]

theorem Follows.reported_eq_zero (h : s.Follows m before) (hx : before.sample = none)
    (dir : Direction) : s.reported dir = 0 := by
  unfold Follows at h
  rw [hx] at h
  cases hy : s.sample with
  | none => simp [reported, h, hy]
  | some y =>
      simp only [hy, Option.bind_some, Traffic.following?] at h
      split at h <;> simp [reported, h]

/-- A record spans two neighbouring samples that show the interface, or no traffic at all. -/
theorem Follows.eq_since_or_idle (h : s.Follows m before) {t : Traffic} (ht : t ∈ s.records) :
    ∃ now, s.sample = some now ∧
      match before.sample with
      | some earlier => t = .since now earlier m
      | none => t = .idle now := by
  unfold Follows at h
  rw [h, Option.mem_toList, Option.bind_eq_some_iff] at ht
  obtain ⟨now, hnow, hrecord⟩ := ht
  refine ⟨now, hnow, ?_⟩
  cases hx : before.sample with
  | none =>
      simp only [hx, Traffic.following?, Option.ite_none_right_eq_some,
        Option.some.injEq] at hrecord
      exact hrecord.2.symm
  | some earlier =>
      simp only [hx, Traffic.following?, Option.ite_none_right_eq_some,
        Option.some.injEq] at hrecord
      exact hrecord.2.symm

/-! ### Along a stretch -/

theorem counts_cons_some (hx : s.sample = some x) (dir : Direction) (rest : List Sighting) :
    counts dir (s :: rest) = x.count dir :: counts dir rest := by
  simp [counts, hx]

theorem sum_reported_eq_sum_deltas {first : Sighting} {rest : List Sighting}
    (chain : (first :: rest).IsChain fun a b => b.Follows m a) (hx : first.sample = some x)
    (shown : ∀ s ∈ rest, s.sample.isSome) (dir : Direction) :
    (rest.map (reported dir)).sum = (m.deltas (x.count dir) (counts dir rest)).sum := by
  induction rest generalizing first x with
  | nil => rfl
  | cons s rest ih =>
      rw [List.isChain_cons_cons] at chain
      obtain ⟨y, hy⟩ := Option.isSome_iff_exists.mp (shown s (by simp))
      have htail := ih chain.2 hy fun t ht => shown t (List.mem_cons_of_mem s ht)
      rw [List.map_cons, List.sum_cons, chain.1.reported_eq hx hy, htail, counts_cons_some hy,
        CounterModulus.deltas, List.sum_cons]

/-- Nothing is reported at the start of a stretch. -/
theorem reported_head_eq_zero {start first : Sighting} {later before tail : List Sighting}
    (chain : (start :: later).IsChain fun a b => b.Follows m a) (silent : start.records = [])
    (split : start :: later = before ++ first :: tail)
    (hidden : ∀ s ∈ before.getLast?, s.sample = none) (dir : Direction) :
    first.reported dir = 0 := by
  cases hlast : before.getLast? with
  | none =>
      rw [List.getLast?_eq_none_iff] at hlast
      rw [hlast, List.nil_append, List.cons.injEq] at split
      rw [← split.1, reported, silent]
      rfl
  | some s =>
      rw [split] at chain
      have hstep := (List.isChain_append.mp chain).2.2 s (by simp [hlast]) first (by simp)
      exact hstep.reported_eq_zero (hidden s (by simp [hlast])) dir

theorem IsStretch.conserves {start : Sighting} {later stretch : List Sighting}
    (chain : (start :: later).IsChain fun a b => b.Follows m a) (silent : start.records = [])
    (h : IsStretch (start :: later) stretch) (dir : Direction) : Conserves m dir stretch := by
  obtain ⟨shown, before, after, split, hidden, -⟩ := h
  cases stretch with
  | nil => exact ⟨by simp [counts], by rintro _ ⟨⟨⟩, -⟩; simp⟩
  | cons first rest =>
      obtain ⟨x, hx⟩ := Option.isSome_iff_exists.mp (shown first (by simp))
      rw [List.append_assoc, List.cons_append] at split
      have hzero := reported_head_eq_zero chain silent split hidden dir
      have hpart : (first :: rest).IsChain fun a b => b.Follows m a := by
        rw [split, ← List.cons_append] at chain
        exact (List.isChain_append.mp (List.isChain_append.mp chain).2.1).1
      have hsum : ((first :: rest).map (reported dir)).sum =
          (m.deltas (x.count dir) (counts dir rest)).sum := by
        rw [List.map_cons, List.sum_cons, hzero, Nat.zero_add]
        exact sum_reported_eq_sum_deltas hpart hx
          (fun s hs => shown s (List.mem_cons_of_mem first hs)) dir
      refine ⟨?_, ?_⟩
      · rw [counts_cons_some hx, hsum]
        intro a ha b hb
        rw [List.head?_cons, Option.mem_some] at ha
        rw [List.getLast?_cons, Option.mem_some, ← List.getLastD_eq_getLast?] at hb
        rw [← ha, ← hb]
        exact m.sum_deltas_modEq _ _
      · rw [counts_cons_some hx, hsum]
        intro totals htotals t ht u hu
        cases totals with
        | nil => cases ht
        | cons t' ts =>
            rw [List.head?_cons, Option.mem_some] at ht
            rw [List.getLast?_cons, Option.mem_some, ← List.getLastD_eq_getLast?] at hu
            rw [← ht, ← hu]
            exact CounterModulus.sum_deltas_of_totals htotals

end Sighting

/-! ### Runs of a collector -/

namespace Collector

/-- The collector after some calls for the traffic. -/
def afterTraffic (c : Collector) (calls : List TrafficCall) : Collector :=
  calls.foldl (fun c call => (c.traffic call.host call.now).2) c

/-- The successful samples among some calls, as one interface sees them. -/
def sightings (device : String) : Collector → List TrafficCall → List Sighting
  | _, [] => []
  | c, call :: rest =>
    match c.traffic call.host call.now with
    | (.error _, next) => sightings device next rest
    | (.ok records, next) =>
      call.sighting c.root device records :: sightings device next rest

/-- The last samples of the collector are those of a sighting. -/
structure Remembers (c : Collector) (m : CounterModulus) (device : String) (s : Sighting) :
    Prop where
  modulus : c.modulus? = some m
  last : ∀ b, c.captured = some b → b.interfaces.find? device = s.sample

theorem Remembers.captured {c : Collector} {m : CounterModulus} {device : String} {s : Sighting}
    (h : c.Remembers m device s) : ∃ b, c.captured = some b ∧ b.modulus = m :=
  Option.map_eq_some_iff.mp h.modulus

theorem named_of_readAll {host : Host} {root : String} {now : Moment} {t : Table InterfaceSample}
    (h : InterfaceSample.readAll host root now = .ok t) : ∀ e ∈ t.entries, e.2.device = e.1 := by
  intro e he
  have hfind := (t.mem_entries_iff e.1 e.2).mp he
  rw [InterfaceSample.find?_readAll h] at hfind
  exact InterfaceSample.device_of_shown? hfind

/-- A successful call adds a sighting that follows the one remembered, and remembers it. -/
theorem Remembers.step {c : Collector} {m : CounterModulus} {device : String} {s : Sighting}
    (h : c.Remembers m device s) (call : TrafficCall) {records : List Traffic}
    (hok : (c.traffic call.host call.now).1 = .ok records) :
    (call.sighting c.root device records).Follows m s ∧
      (c.traffic call.host call.now).2.Remembers m device
        (call.sighting c.root device records) := by
  obtain ⟨b, hb, rfl⟩ := h.captured
  cases hread : InterfaceSample.readAll call.host c.root call.now with
  | error fault =>
      rw [traffic_of_error hb hread] at hok
      cases hok
  | ok current =>
      rw [traffic_of_ok hb hread] at hok ⊢
      cases hok
      have hshown := InterfaceSample.find?_readAll hread device
      refine ⟨?_, rfl, ?_⟩
      · simp only [Sighting.Follows, TrafficCall.sighting,
          Traffic.filter_between _ _ _ (named_of_readAll hread), hshown, h.last b hb]
      · intro b' hb'
        cases hb'
        exact hshown

/-- The sightings of a run follow each other, and its first one follows what was remembered. -/
theorem Remembers.isChain_sightings {c : Collector} {m : CounterModulus} {device : String}
    {s : Sighting} (h : c.Remembers m device s) (calls : List TrafficCall) :
    (s :: sightings device c calls).IsChain fun a b => b.Follows m a := by
  induction calls generalizing c s with
  | nil => exact List.isChain_singleton s
  | cons call rest ih =>
      unfold sightings
      cases hanswer : (c.traffic call.host call.now).1 with
      | error fault =>
          have hself := traffic_eq_self_of_error hanswer
          rw [show c.traffic call.host call.now = (.error fault, c) from Prod.ext hanswer hself]
          exact ih h
      | ok records =>
          obtain ⟨hfollows, hnext⟩ := h.step call hanswer
          rw [show c.traffic call.host call.now =
            (.ok records, (c.traffic call.host call.now).2) from Prod.ext hanswer rfl]
          exact List.isChain_cons_cons.mpr ⟨hfollows, ih hnext⟩

theorem modulus?_traffic (c : Collector) (host : Host) (now : Moment) :
    (c.traffic host now).2.modulus? = c.modulus? ∧ (c.traffic host now).2.root = c.root := by
  cases hb : c.captured with
  | none =>
      rw [traffic_of_none hb]
      exact ⟨rfl, rfl⟩
  | some b =>
      cases hread : InterfaceSample.readAll host c.root now with
      | error fault =>
          rw [traffic_of_error hb hread]
          exact ⟨rfl, rfl⟩
      | ok current =>
          rw [traffic_of_ok hb hread, modulus?, modulus?, hb]
          exact ⟨rfl, rfl⟩

theorem modulus?_afterTraffic (c : Collector) (calls : List TrafficCall) :
    (c.afterTraffic calls).modulus? = c.modulus? ∧ (c.afterTraffic calls).root = c.root := by
  induction calls generalizing c with
  | nil => exact ⟨rfl, rfl⟩
  | cons call rest ih =>
      obtain ⟨hmodulus, hroot⟩ := c.modulus?_traffic call.host call.now
      obtain ⟨hmodulus', hroot'⟩ := ih (c.traffic call.host call.now).2
      exact ⟨hmodulus'.trans hmodulus, hroot'.trans hroot⟩

/-- With a baseline, a call for the traffic fails only where the interfaces cannot be read. -/
theorem traffic_isError_iff {c : Collector} {m : CounterModulus} (h : c.modulus? = some m)
    (host : Host) (now : Moment) :
    (∃ fault, (c.traffic host now).1 = .error fault) ↔
      ∃ cause, host.readText (Path.joinAll c.root ["proc", "net", "dev"]) = .error cause := by
  obtain ⟨b, hb, -⟩ := Option.map_eq_some_iff.mp h
  rw [← InterfaceSample.exists_readAll_eq_error_iff host c.root now]
  cases hread : InterfaceSample.readAll host c.root now with
  | error fault => simp only [traffic_of_error hb hread, Except.error.injEq]
  | ok current => simp only [traffic_of_ok hb hread, reduceCtorEq]

theorem remembers_baseline {c : Collector} {start : TrafficCall}
    (started : (c.baseline start.host start.now).1.isOk) (device : String) :
    (c.baseline start.host start.now).2.1.Remembers
      (.ofWordWidth (ProcessorFacts.read start.host c.root).is64Bit) device
      (start.sighting c.root device []) := by
  obtain ⟨interfaces, hread, hcaptured⟩ := captured_of_isOk started
  rw [hcaptured]
  refine ⟨rfl, ?_⟩
  intro b hb
  cases hb
  exact InterfaceSample.find?_readAll hread device

/-- After a successful baseline, whose sample is the first, any calls for the traffic keep the
modulus; the ones that fail, which are those that cannot read the interfaces, change nothing.
Over every stretch of samples that show an interface the reported amounts are conserved, and each
record spans two neighbouring samples that both show the interface, or no traffic at all. -/
theorem traffic_conserved (c : Collector) (start : TrafficCall)
    (started : (c.baseline start.host start.now).1.isOk) (calls : List TrafficCall)
    (device : String) :
    let m := CounterModulus.ofWordWidth (ProcessorFacts.read start.host c.root).is64Bit
    let based := (c.baseline start.host start.now).2.1
    let reached := based.afterTraffic calls
    let history := start.sighting c.root device [] :: sightings device based calls
    reached.modulus? = some m ∧
      (∀ call : TrafficCall,
        ((∃ fault, (reached.traffic call.host call.now).1 = .error fault) ↔
          ∃ cause, call.host.readText (Path.joinAll c.root ["proc", "net", "dev"]) =
            .error cause) ∧
        ∀ fault, (reached.traffic call.host call.now).1 = .error fault →
          (reached.traffic call.host call.now).2 = reached) ∧
      (∀ stretch, Sighting.IsStretch history stretch →
        ∀ dir, Sighting.Conserves m dir stretch) ∧
      ∀ earlier later, [earlier, later] <:+: history → ∀ t ∈ later.records,
        ∃ now, later.sample = some now ∧
          match earlier.sample with
          | some before => t = .since now before m
          | none => t = .idle now := by
  intro m based reached history
  have hremembers := remembers_baseline started device
  have hchain := hremembers.isChain_sightings calls
  obtain ⟨hmodulus, hroot⟩ := based.modulus?_afterTraffic calls
  have hreached : reached.modulus? = some m := hmodulus.trans hremembers.modulus
  have hroot' : reached.root = c.root := by
    obtain ⟨interfaces, -, hcaptured⟩ := captured_of_isOk started
    rw [hroot, show based = _ from hcaptured]
    rfl
  refine ⟨hreached, fun call => ⟨?_, fun fault => traffic_eq_self_of_error⟩, ?_, ?_⟩
  · rw [← hroot']
    exact traffic_isError_iff hreached call.host call.now
  · intro stretch hstretch dir
    exact hstretch.conserves hchain rfl dir
  · intro earlier later hpair t ht
    have hneighbours : [earlier, later].IsChain fun a b => b.Follows m a := hchain.infix hpair
    rw [List.isChain_pair] at hneighbours
    exact hneighbours.eq_since_or_idle ht

/-- A counter at its last value wraps while a call fails: 42 bytes are reported. -/
theorem traffic_conserved_wrap :
    let host (dev : String) : Host :=
      (Tree.ofTexts [(["proc", "net", "dev"], dev), (["proc", "uptime"], "1 1")]).host
    let start : TrafficCall := ⟨host "a: 18446744073709551615 0 0 0 0 0 0 0 7", 0⟩
    let calls : List TrafficCall := [⟨(Tree.ofTexts []).host, 1⟩, ⟨host "a: 41 0 0 0 0 0 0 0 9", 2⟩]
    let c := Collector.ofRoot "/"
    let history : List Sighting :=
      [⟨some ⟨"a", 0, false, 18446744073709551615, 7⟩, []⟩,
        ⟨some ⟨"a", 2, false, 41, 9⟩, [⟨"a", ⟨2⟩, 42, 2⟩]⟩]
    (c.baseline start.host start.now).1.isOk ∧
      start.sighting c.root "a" [] ::
        sightings "a" (c.baseline start.host start.now).2.1 calls = history ∧
      Sighting.IsStretch history history ∧
      ∀ dir, Sighting.Conserves .bits64 dir history := by
  intro host start calls c history
  have started : (c.baseline start.host start.now).1.isOk := by decide +kernel
  have seen : start.sighting c.root "a" [] ::
      sightings "a" (c.baseline start.host start.now).2.1 calls = history := by decide +kernel
  have stretch : Sighting.IsStretch history history :=
    ⟨by simp [history], [], [], by simp, by simp, by simp⟩
  have width : CounterModulus.ofWordWidth (ProcessorFacts.read start.host c.root).is64Bit
      = .bits64 := by decide +kernel
  have conserved := (traffic_conserved c start started calls "a").2.2.1
  rw [width, seen] at conserved
  exact ⟨started, seen, stretch, conserved history stretch⟩

end Collector

end HostGauge
