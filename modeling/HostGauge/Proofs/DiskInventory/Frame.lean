import HostGauge.Host.Tree
import HostGauge.Proofs.DiskInventory.Untimed

/-!
What holds of the two caches at all times, and how far a query reaches. Whatever happens to the
host, every sample stands under its own device and goes with the size that is cached. A query sees
and changes only what is held of its own device, so queries of two devices can be exchanged.
-/
namespace HostGauge

namespace DiskInventory

/-- The inventories that some baselines and queries lead to. -/
inductive Reachable (root : String) : DiskInventory → Prop
  | fresh : Reachable root { root := root }
  | baseline {d : DiskInventory} (host : Host) (now : Moment) :
      Reachable root d → Reachable root (d.baseline host now).1
  | query {d : DiskInventory} (m : CounterModulus) (q : DiskQuery) :
      Reachable root d → Reachable root (d.afterQuery m q)

/-- Every saved sample is of the device that it is saved for, and has its cached size. -/
structure Coherent (d : DiskInventory) : Prop where
  named : ∀ device s, d.saved.find? device = some s → s.device = device
  linked : d.Linked

/-- Two inventories hold the same of a device. -/
structure SameAt (device : String) (d e : DiskInventory) : Prop where
  root : d.root = e.root
  size : d.sectorSizes.find? device = e.sectorSizes.find? device
  sample : d.saved.find? device = e.saved.find? device

/-- Two queries are answered alike in either order, and leave the same. -/
structure Commute (d : DiskInventory) (m : CounterModulus) (q : DiskQuery) (n : CounterModulus)
    (r : DiskQuery) : Prop where
  first : d.answer m q = (d.afterQuery n r).answer m q
  second : (d.afterQuery m q).answer n r = d.answer n r
  caches : ∀ device, SameAt device ((d.afterQuery m q).afterQuery n r)
    ((d.afterQuery n r).afterQuery m q)

/-- The same up to times, for queries that are made at other moments in the other order. -/
structure CommuteUntimed (d : DiskInventory) (m : CounterModulus) (q : DiskQuery)
    (n : CounterModulus) (r : DiskQuery) : Prop where
  first : ∀ t v w, (d.answer m (q.shifted t)).map DiskActivity.untimed =
    ((d.afterQuery n (r.shifted v)).answer m (q.shifted w)).map DiskActivity.untimed
  second : ∀ t u v,
    ((d.afterQuery m (q.shifted t)).answer n (r.shifted u)).map DiskActivity.untimed =
      (d.answer n (r.shifted v)).map DiskActivity.untimed
  caches : ∀ t u v w device,
    SameAt device ((d.afterQuery m (q.shifted t)).afterQuery n (r.shifted u)).untimed
      ((d.afterQuery n (r.shifted v)).afterQuery m (q.shifted w)).untimed

variable {m n : CounterModulus} {d e f : DiskInventory} {q r : DiskQuery} {device root : String}

/-! ### The invariant -/

theorem coherent_fresh (root : String) : Coherent { root := root } where
  named := by
    intro device s hs
    cases hs
  linked := by
    intro device s hs
    cases hs

theorem coherent_baseline (d : DiskInventory) (host : Host) (now : Moment) :
    (d.baseline host now).1.Coherent where
  named := by
    intro device s hs
    exact DiskSample.device_of_read (read_of_saved_baseline hs).2.2
  linked := linked_baseline d host now

theorem Coherent.afterQuery (h : d.Coherent) : (d.afterQuery m q).Coherent where
  named := by
    intro device s hs
    rcases saved_or_taken hs with hbefore | ⟨hdevice, hsample⟩
    · exact h.named device s hbefore
    · rw [← hdevice]
      exact DiskSample.device_of_read (read_of_sample hsample)
  linked := h.linked.afterQuery

theorem Reachable.coherent (h : Reachable root d) : d.Coherent := by
  induction h with
  | fresh => exact coherent_fresh root
  | baseline host now _ _ => exact coherent_baseline _ host now
  | query m q _ ih => exact ih.afterQuery

/-! ### The frame of a query -/

namespace SameAt

theorem symm (h : SameAt device d e) : SameAt device e d := ⟨h.1.symm, h.2.symm, h.3.symm⟩

theorem trans (h : SameAt device d e) (h' : SameAt device e f) : SameAt device d f :=
  ⟨h.1.trans h'.1, h.2.trans h'.2, h.3.trans h'.3⟩

theorem sectorSize (h : SameAt device d e) (host : Host) :
    d.sectorSize host device = e.sectorSize host device := by
  unfold DiskInventory.sectorSize
  rw [h.root, h.size]

end SameAt

/-- A query leaves alone what is held of other devices. -/
theorem sameAt_afterQuery (h : device ≠ q.device) : SameAt device (d.afterQuery m q) d where
  root := root_afterQuery
  size := by
    rw [sectorSizes_afterQuery]
    cases d.sectorSize q.host q.device with
    | error fault => rfl
    | ok size => rw [Table.find?_insert, if_neg h]
  sample := by rw [find?_saved_afterQuery, if_neg (Ne.symm h)]

/-- A query turns only on what is held of its own device. -/
theorem SameAt.query (h : SameAt q.device d e) (m : CounterModulus) :
    d.answer m q = e.answer m q ∧ SameAt q.device (d.afterQuery m q) (e.afterQuery m q) := by
  have hsame := h.sectorSize q.host
  cases hsize : d.sectorSize q.host q.device with
  | error fault =>
      obtain ⟨hanswer, hafter⟩ := query_unresolved (m := m) hsize
      obtain ⟨hanswer', hafter'⟩ := query_unresolved (m := m) (hsame.symm.trans hsize)
      rw [hanswer, hafter, hanswer', hafter']
      exact ⟨rfl, h⟩
  | ok size =>
      have hknown : SameAt q.device (d.saveSize q.device size) (e.saveSize q.device size) :=
        ⟨h.root, by simp [saveSize], h.sample⟩
      cases hread : DiskSample.read q.host d.root q.device size q.now with
      | error fault =>
          obtain ⟨hanswer, hafter⟩ := query_unread (m := m) hsize hread
          obtain ⟨hanswer', hafter'⟩ :=
            query_unread (m := m) (hsame.symm.trans hsize) (h.root ▸ hread)
          rw [hanswer, hafter, hanswer', hafter']
          exact ⟨rfl, hknown⟩
      | ok s =>
          obtain ⟨hafter, hanswer⟩ := query_read (m := m) hsize hread
          obtain ⟨hafter', hanswer'⟩ :=
            query_read (m := m) (hsame.symm.trans hsize) (h.root ▸ hread)
          rw [hanswer, hafter, hanswer', hafter', h.sample]
          exact ⟨rfl, hknown.root, hknown.size, by simp [save]⟩

/-! ### Exchanging two queries -/

theorem answer_afterQuery (h : r.device ≠ q.device) :
    (d.afterQuery m q).answer n r = d.answer n r :=
  ((sameAt_afterQuery h).query n).1

theorem sameAt_afterQueries (h : r.device ≠ q.device) (device : String) :
    SameAt device ((d.afterQuery m q).afterQuery n r) ((d.afterQuery n r).afterQuery m q) := by
  by_cases hr : device = r.device
  · subst hr
    exact ((sameAt_afterQuery h).query n).2.trans (sameAt_afterQuery h).symm
  · by_cases hq : device = q.device
    · subst hq
      exact (sameAt_afterQuery hr).trans ((sameAt_afterQuery hr).query m).2.symm
    · have hfirst : SameAt device ((d.afterQuery m q).afterQuery n r) d :=
        (sameAt_afterQuery hr).trans (sameAt_afterQuery hq)
      have hsecond : SameAt device ((d.afterQuery n r).afterQuery m q) d :=
        (sameAt_afterQuery hq).trans (sameAt_afterQuery hr)
      exact hfirst.trans hsecond.symm

theorem commute_of_ne (h : r.device ≠ q.device) : d.Commute m q n r where
  first := (answer_afterQuery h.symm).symm
  second := answer_afterQuery h
  caches := sameAt_afterQueries h

/-- The answer does not turn on the moment, up to times. -/
theorem untimed_answer_shifted (d : DiskInventory) (m : CounterModulus) (q : DiskQuery)
    (t u : Moment) : (d.answer m (q.shifted t)).map DiskActivity.untimed =
      (d.answer m (q.shifted u)).map DiskActivity.untimed := by
  rw [(d.query_untimed m _).1, (d.query_untimed m _).1]
  rfl

theorem commuteUntimed_of_ne (h : r.device ≠ q.device) : d.CommuteUntimed m q n r where
  first := by
    intro t v w
    rw [answer_afterQuery (q := r.shifted v) (r := q.shifted w) h.symm]
    exact d.untimed_answer_shifted m q t w
  second := by
    intro t u v
    rw [answer_afterQuery (q := q.shifted t) (r := r.shifted u) h]
    exact d.untimed_answer_shifted n r u v
  caches := by
    intro t u v w device
    rw [(query_untimed _ n _).2, (query_untimed _ m _).2, (query_untimed _ m _).2,
      (query_untimed _ n _).2]
    exact sameAt_afterQueries (q := q.shifted 0) (r := r.shifted 0) h device

/-- In every state that calls lead to, over any hosts, the caches are coherent. From there a query
leaves alone what is held of other devices; where it cannot tell the sector size it changes
nothing, and where it cannot read the statistics it keeps all samples and adds at most the size of
its device. Queries of two devices can be exchanged, and the times then differ at most. -/
theorem caches_coherent (reached : Reachable root d) :
    d.Coherent ∧ ∀ m q,
      (∀ device, device ≠ q.device → SameAt device (d.afterQuery m q) d) ∧
      (∀ fault, d.sectorSize q.host q.device = .error fault →
        d.answer m q = .error fault ∧ d.afterQuery m q = d) ∧
      (∀ size fault, d.sectorSize q.host q.device = .ok size →
        DiskSample.read q.host d.root q.device size q.now = .error fault →
          d.answer m q = .error fault ∧ (d.afterQuery m q).saved = d.saved ∧
            d.afterQuery m q = d.saveSize q.device size ∧
            ∀ known, d.sectorSizes.find? q.device = some known → d.afterQuery m q = d) ∧
      ∀ n r, r.device ≠ q.device → d.Commute m q n r ∧ d.CommuteUntimed m q n r := by
  refine ⟨reached.coherent, fun m q => ⟨fun device => sameAt_afterQuery, ?_, ?_, ?_⟩⟩
  · intro fault hsize
    exact query_unresolved hsize
  · intro size fault hsize hread
    obtain ⟨hanswer, hafter⟩ := query_unread (m := m) hsize hread
    refine ⟨hanswer, by rw [hafter]; rfl, hafter, ?_⟩
    intro known hknown
    obtain rfl : known = size :=
      Except.ok.inj ((sectorSize_of_cached hknown q.host).symm.trans hsize)
    rw [hafter, saveSize, Table.insert_of_find? hknown]
  · intro n r hne
    exact ⟨commute_of_ne hne, commuteUntimed_of_ne hne⟩

/-- One device that the baseline sampled, and one that the listing has shown since. -/
theorem caches_coherent_listed :
    let host (name : String) : Host :=
      { (Tree.ofTexts [(["sys", "class", "block", "a", "stat"], "1 0 8 0 2 0 16"),
          (["sys", "class", "block", "b", "stat"], "3 0 8 0 4 0 16")]).host with
        run := fun _ => .ended (.code 0)
          ("\x7b\"blockdevices\": [\x7b\"name\": \"" ++ name ++
            "\", \"log-sec\": 512\x7d]\x7d").toUTF8.toList }
    let d := (DiskInventory.baseline { root := "/" } (host "/dev/a") 0).1
    let q : DiskQuery := ⟨host "/dev/b", 1, "/dev/a"⟩
    let r : DiskQuery := ⟨host "/dev/b", 2, "/dev/b"⟩
    d.Coherent ∧ d.saved.keys = ["/dev/a"] ∧ d.sectorSizes.keys = ["/dev/a"] ∧
      ((d.afterQuery .bits32 q).afterQuery .bits64 r).saved.keys = ["/dev/a", "/dev/b"] ∧
      d.Commute .bits32 q .bits64 r ∧ d.CommuteUntimed .bits32 q .bits64 r := by
  intro host d q r
  have reached : Reachable "/" d := .baseline (host "/dev/a") 0 .fresh
  obtain ⟨coherent, queries⟩ := caches_coherent reached
  obtain ⟨-, -, -, exchange⟩ := queries .bits32 q
  exact ⟨coherent, by decide +kernel, by decide +kernel, by decide +kernel,
    exchange .bits64 r (by decide)⟩

end DiskInventory

end HostGauge
