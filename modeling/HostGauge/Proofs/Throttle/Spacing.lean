import HostGauge.Proofs.Throttle

/-!
The reports of a slot in time. A slot is silent exactly where the query before had the same key
and the window of the last report is still open, so in an unbroken run of one key the reports are
a window apart from each other, and a run within some span of time has no more of them than
windows begin in that span.
-/
namespace HostGauge

namespace Throttle

variable {t : Throttle} {history : List (Query × Bool)} {key : Fault.Key} {q : Query}

/-- The queries that are reported. -/
def reports (t : Throttle) (queries : List Query) : List Query :=
  ((t.verdicts queries).filter (·.2)).map Prod.fst

/-! ### What a slot remembers after a sequence -/

theorem Remembers.after (h : t.Remembers history) (queries : List Query) :
    (t.after queries).Remembers (history ++ t.verdicts queries) := by
  induction queries generalizing t history with
  | nil => rwa [verdicts, List.append_nil]
  | cons q rest ih =>
      have hrest := ih (h.shouldReport q)
      rwa [List.append_assoc] at hrest

@[simp]
theorem window_after (t : Throttle) (queries : List Query) :
    (t.after queries).window = t.window := by
  induction queries generalizing t with
  | nil => rfl
  | cons q rest ih => exact (ih _).trans (window_shouldReport t q.key q.moment)

theorem map_fst_verdicts (t : Throttle) (queries : List Query) :
    (t.verdicts queries).map Prod.fst = queries := by
  induction queries generalizing t with
  | nil => rfl
  | cons q rest ih => exact congrArg (q :: ·) (ih _)

section Fresh

variable (window : Duration) (earlier : List Query)

theorem saved_after_fresh :
    (after ⟨window, none⟩ earlier).saved = (reports ⟨window, none⟩ earlier).getLast?.map
      fun report => ⟨report.key, report.moment + window.nanos⟩ := by
  have h := ((remembers_nil window).after earlier).saved
  rw [window_after, List.nil_append] at h
  rw [h, reports, List.getLast?_map, Option.map_map]
  rfl

theorem lastReported_after_fresh :
    (after ⟨window, none⟩ earlier).lastReported = earlier.getLast?.map (·.key) := by
  have h := ((remembers_nil window).after earlier).key
  rw [List.nil_append] at h
  rw [h]
  conv_rhs => rw [← map_fst_verdicts ⟨window, none⟩ earlier, List.getLast?_map, Option.map_map]
  rfl

theorem shouldReport_eq_false_iff (q : Query) :
    ((after ⟨window, none⟩ earlier).shouldReport q.key q.moment).1 = false ↔
      ∃ before ∈ earlier.getLast?, before.key = q.key ∧
        ∃ report ∈ (reports ⟨window, none⟩ earlier).getLast?,
          q.moment < report.moment + window.nanos := by
  have hsaved := saved_after_fresh window earlier
  have hlast := lastReported_after_fresh window earlier
  rw [← Bool.not_eq_true, shouldReport_iff_not_suppresses, not_not, suppresses_iff]
  constructor
  · rintro ⟨saved, hsome, hkey, hopen⟩
    rw [hsome] at hsaved
    obtain ⟨report, hreport, rfl⟩ := Option.map_eq_some_iff.mp hsaved.symm
    rw [lastReported, hsome] at hlast
    obtain ⟨before, hbefore, hsame⟩ := Option.map_eq_some_iff.mp hlast.symm
    exact ⟨before, hbefore, hsame.trans hkey, report, hreport, hopen⟩
  · rintro ⟨before, hbefore, hkey, report, hreport, hopen⟩
    rw [Option.mem_def.mp hreport] at hsaved
    refine ⟨_, hsaved, ?_, hopen⟩
    rw [lastReported, hsaved, Option.mem_def.mp hbefore] at hlast
    exact (Option.some.inj hlast).trans hkey

end Fresh

theorem lastReported_shouldReport (t : Throttle) (key : Fault.Key) (now : Moment) :
    (t.shouldReport key now).2.lastReported = some key := by
  by_cases h : t.suppresses key now = true
  · obtain ⟨saved, hsaved, rfl, -⟩ := suppresses_iff.mp h
    rw [shouldReport_of_suppresses h, lastReported, hsaved]
    rfl
  · rw [shouldReport_of_not_suppresses h]
    rfl

/-! ### Runs of one key -/

theorem reports_of_suppresses {rest : List Query} (h : t.suppresses q.key q.moment = true) :
    t.reports (q :: rest) = t.reports rest := by
  simp only [reports, verdicts, shouldReport_of_suppresses h, Bool.false_eq_true,
    not_false_eq_true, List.filter_cons_of_neg]

theorem reports_of_not_suppresses {rest : List Query} (h : ¬ t.suppresses q.key q.moment = true) :
    t.reports (q :: rest) =
      q :: reports { t with saved := some ⟨q.key, q.moment + t.window.nanos⟩ } rest := by
  simp only [reports, verdicts, shouldReport_of_not_suppresses h, List.filter_cons_of_pos,
    List.map_cons]

theorem reports_sublist (t : Throttle) (queries : List Query) :
    (t.reports queries).Sublist queries := by
  have h := (List.filter_sublist (p := (·.2)) (l := t.verdicts queries)).map Prod.fst
  rwa [map_fst_verdicts] at h

/-- While a slot holds the key of a run, nothing of the run is reported before its window ends. -/
theorem expired_of_mem_reports {expiresAt : Moment} (hsaved : t.saved = some ⟨key, expiresAt⟩)
    {run : List Query} (hrun : ∀ q ∈ run, q.key = key) :
    ∀ report ∈ t.reports run, expiresAt ≤ report.moment := by
  -- A report puts another end of the window into the slot, so the claim is about all of them.
  induction run generalizing t expiresAt with
  | nil =>
      intro report hreport
      cases hreport
  | cons q rest ih =>
      obtain ⟨hkey, hrest⟩ := List.forall_mem_cons.mp hrun
      intro report hreport
      by_cases hsup : t.suppresses q.key q.moment = true
      · rw [reports_of_suppresses hsup] at hreport
        exact ih hsaved hrest report hreport
      · have hexpired : expiresAt ≤ q.moment := by
          by_contra hopen
          exact hsup (suppresses_iff.mpr ⟨_, hsaved, hkey.symm, Nat.not_le.mp hopen⟩)
        rw [reports_of_not_suppresses hsup, hkey] at hreport
        rcases List.mem_cons.mp hreport with rfl | hlater
        · exact hexpired
        · calc expiresAt ≤ q.moment := hexpired
            _ ≤ q.moment + t.window.nanos := Nat.le_add_right _ _
            _ ≤ report.moment := ih rfl hrest report hlater

theorem pairwise_reports {run : List Query} (hrun : ∀ q ∈ run, q.key = key) :
    (t.reports run).Pairwise fun a b => a.moment + t.window.nanos ≤ b.moment := by
  induction run generalizing t with
  | nil => exact .nil
  | cons q rest ih =>
      obtain ⟨hkey, hrest⟩ := List.forall_mem_cons.mp hrun
      by_cases hsup : t.suppresses q.key q.moment = true
      · rw [reports_of_suppresses hsup]
        exact ih hrest
      · rw [reports_of_not_suppresses hsup, hkey]
        -- The report fills the slot with the key of the run, and the rest waits for its window.
        refine .cons (expired_of_mem_reports rfl hrest) ?_
        exact ih (t := { t with saved := some ⟨key, q.moment + t.window.nanos⟩ }) hrest

/-- Queries that are a window apart and lie between two moments do not fill more windows than lead
from the first of these moments to the other, and one that begins there. -/
theorem length_mul_le_of_pairwise {window low high : Nat} {queries : List Query}
    (hapart : queries.Pairwise fun a b => a.moment + window ≤ b.moment)
    (hlow : ∀ q ∈ queries, low ≤ q.moment) (hhigh : ∀ q ∈ queries, q.moment ≤ high)
    (hle : low ≤ high + window) : low + queries.length * window ≤ high + window := by
  induction queries generalizing low with
  | nil => simpa using hle
  | cons q rest ih =>
      obtain ⟨hnext, hrest⟩ := List.pairwise_cons.mp hapart
      obtain ⟨hq, -⟩ := List.forall_mem_cons.mp hlow
      obtain ⟨hq', hhigh'⟩ := List.forall_mem_cons.mp hhigh
      -- The rest lies after the window that begins with `q`.
      have htail := ih hrest hnext hhigh' (Nat.add_le_add_right hq' window)
      rw [List.length_cons, Nat.add_mul, Nat.one_mul]
      omega

theorem mem_between_head_getLast {run : List Query} (hrun : run.Pairwise (·.moment ≤ ·.moment))
    {first last : Query} (hfirst : run.head? = some first) (hlast : run.getLast? = some last)
    (hq : q ∈ run) : first.moment ≤ q.moment ∧ q.moment ≤ last.moment := by
  obtain ⟨rest, rfl⟩ := List.head?_eq_some_iff.mp hfirst
  obtain ⟨before, hsplit⟩ := List.getLast?_eq_some_iff.mp hlast
  constructor
  · rcases List.mem_cons.mp hq with rfl | hmem
    · exact Nat.le_refl _
    · exact (List.pairwise_cons.mp hrun).1 q hmem
  · rw [hsplit] at hq hrun
    rcases List.mem_append.mp hq with hmem | hmem
    · exact (List.pairwise_append.mp hrun).2.2 q hmem last List.mem_cons_self
    · cases List.mem_singleton.mp hmem
      exact Nat.le_refl _

theorem length_reports_le (hwindow : 0 < t.window.nanos) {run : List Query}
    (hkeys : ∀ q ∈ run, q.key = key) (hrun : run.Pairwise (·.moment ≤ ·.moment))
    {first last : Query} (hfirst : run.head? = some first) (hlast : run.getLast? = some last) :
    (t.reports run).length ≤ (last.moment - first.moment) / t.window.nanos + 1 := by
  have hmem : ∀ q ∈ t.reports run, first.moment ≤ q.moment ∧ q.moment ≤ last.moment :=
    fun q hq => mem_between_head_getLast hrun hfirst hlast ((reports_sublist t run).subset hq)
  have hspan : first.moment ≤ last.moment :=
    (mem_between_head_getLast hrun hfirst hlast (List.mem_of_getLast? hlast)).1
  have hmul := length_mul_le_of_pairwise (pairwise_reports hkeys) (fun q hq => (hmem q hq).1)
    (fun q hq => (hmem q hq).2) (Nat.le_add_right_of_le hspan)
  rw [← Nat.add_div_right _ hwindow, Nat.le_div_iff_mul_le hwindow]
  omega

/-- After any queries a fresh slot is silent about the next one exactly if that has the key of the
one before and the window of the last report is open, and the last key it knows is then that of
the query. So another key is reported at once. In a run of one key that follows, no two reports
are less than a window apart, and if the times of the run do not go back, it has at most as many
reports as whole windows fit between its first and its last query, and one more. -/
theorem reported_by_history (window : Duration) (earlier : List Query) :
    let slot := after ⟨window, none⟩ earlier
    (∀ q : Query, (slot.shouldReport q.key q.moment).1 = false ↔
      ∃ before ∈ earlier.getLast?, before.key = q.key ∧
        ∃ report ∈ (reports ⟨window, none⟩ earlier).getLast?,
          q.moment < report.moment + window.nanos) ∧
    (∀ q : Query, (slot.shouldReport q.key q.moment).2.lastReported = some q.key) ∧
    (∀ before ∈ earlier.getLast?, ∀ q : Query, before.key ≠ q.key →
      (slot.shouldReport q.key q.moment).1 = true) ∧
    ∀ (key : Fault.Key) (run : List Query), (∀ q ∈ run, q.key = key) →
      (slot.reports run).Pairwise (fun a b => a.moment + window.nanos ≤ b.moment) ∧
      ∀ first ∈ run.head?, ∀ last ∈ run.getLast?, run.Pairwise (·.moment ≤ ·.moment) →
        0 < window.nanos →
        (slot.reports run).length ≤ (last.moment - first.moment) / window.nanos + 1 := by
  intro slot
  have hwindow : slot.window = window := window_after ⟨window, none⟩ earlier
  refine ⟨shouldReport_eq_false_iff window earlier,
    fun q => lastReported_shouldReport slot q.key q.moment, ?_, ?_⟩
  · intro before hbefore q hne
    rw [← Bool.not_eq_false, shouldReport_eq_false_iff]
    rintro ⟨other, hother, hkey, -⟩
    cases Option.mem_unique hbefore hother
    exact hne hkey
  · intro key run hkeys
    constructor
    · have hapart := pairwise_reports (t := slot) hkeys
      rwa [hwindow] at hapart
    · intro first hfirst last hlast hrun hpos
      have hlength := length_reports_le (t := slot) (hwindow ▸ hpos) hkeys hrun hfirst hlast
      rwa [hwindow] at hlength

/-- Four queries in two and a half windows, after a query of another key at a later time. -/
theorem reported_by_history_tight :
    let a : Fault.Key := ⟨"io", "a"⟩
    let b : Fault.Key := ⟨"io", "b"⟩
    let slot := after ⟨⟨10⟩, none⟩ [⟨a, 30⟩]
    let run : List Query := [⟨b, 0⟩, ⟨b, 9⟩, ⟨b, 10⟩, ⟨b, 25⟩]
    (∀ q ∈ run, q.key = b) ∧ run.Pairwise (·.moment ≤ ·.moment) ∧
      slot.reports run = [⟨b, 0⟩, ⟨b, 10⟩, ⟨b, 25⟩] ∧
      (slot.reports run).Pairwise (fun x y => x.moment + 10 ≤ y.moment) ∧
      (slot.reports run).length ≤ (25 - 0) / 10 + 1 := by
  intro a b slot run
  have hkeys : ∀ q ∈ run, q.key = b := by decide
  have hrun : run.Pairwise (·.moment ≤ ·.moment) := by decide
  obtain ⟨hapart, hlength⟩ := (reported_by_history ⟨10⟩ [⟨a, 30⟩]).2.2.2 b run hkeys
  exact ⟨hkeys, hrun, by decide, hapart, hlength ⟨b, 0⟩ rfl ⟨b, 25⟩ rfl hrun (by decide)⟩

end Throttle

end HostGauge
