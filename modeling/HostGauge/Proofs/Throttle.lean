import HostGauge.Throttle
import Mathlib.Data.List.Basic

/-!
What a throttle slot has reported of a whole sequence of queries, said by the sequence alone: the
first query, every query whose key is not the one before, and every query a window or more after
the last report. A slot keeps the last report only; that its key is also the key of the query
before is the invariant that makes this enough.
-/
namespace HostGauge

namespace Throttle

/-- A key, and the moment at which a slot is asked about it. -/
structure Query where
  key : Fault.Key
  moment : Moment
  deriving DecidableEq, Repr

variable {t : Throttle} {history : List (Query × Bool)} {q : Query}

/-- The slot after some queries. -/
def after (t : Throttle) : List Query → Throttle
  | [] => t
  | q :: rest => (t.shouldReport q.key q.moment).2.after rest

/-- The queries, each with whether it is reported. -/
def verdicts (t : Throttle) : List Query → List (Query × Bool)
  | [] => []
  | q :: rest =>
    (q, (t.shouldReport q.key q.moment).1) :: (t.shouldReport q.key q.moment).2.verdicts rest

theorem after_append (t : Throttle) (a b : List Query) :
    t.after (a ++ b) = (t.after a).after b := by
  induction a generalizing t with
  | nil => rfl
  | cons q rest ih => exact ih _

/-! ### The rule -/

/-- A query is due for a report: it is the first one, or it has another key than the one before,
or a window has passed since the last report. -/
def Due (window : Duration) (earlier : List (Query × Bool)) (q : Query) : Prop :=
  earlier = [] ∨
    (∃ before ∈ earlier.getLast?, before.1.key ≠ q.key) ∨
    ∃ report ∈ (earlier.filter (·.2)).getLast?, report.1.moment + window.nanos ≤ q.moment

/-- At every place of a sequence, what is due is reported, and nothing else. -/
def ByRule (window : Duration) (marked : List (Query × Bool)) : Prop :=
  ∀ earlier q reported later, marked = earlier ++ (q, reported) :: later →
    (reported = true ↔ Due window earlier q)

/-! ### What a slot remembers -/

/-- The slot holds the last report of a history, whose key is that of the last query. -/
structure Remembers (t : Throttle) (history : List (Query × Bool)) : Prop where
  saved : t.saved = ((history.filter (·.2)).getLast?).map fun report =>
    ⟨report.1.key, report.1.moment + t.window.nanos⟩
  key : t.lastReported = history.getLast?.map (·.1.key)

theorem remembers_nil (window : Duration) : Remembers ⟨window, none⟩ [] := ⟨rfl, rfl⟩

@[simp]
theorem window_shouldReport (t : Throttle) (key : Fault.Key) (now : Moment) :
    (t.shouldReport key now).2.window = t.window := by
  unfold shouldReport
  split <;> rfl

theorem shouldReport_of_suppresses {key : Fault.Key} {now : Moment}
    (h : t.suppresses key now = true) : t.shouldReport key now = (false, t) := by
  rw [shouldReport, if_pos h]

theorem shouldReport_of_not_suppresses {key : Fault.Key} {now : Moment}
    (h : ¬ t.suppresses key now = true) :
    t.shouldReport key now = (true, { t with saved := some ⟨key, now + t.window.nanos⟩ }) := by
  rw [shouldReport, if_neg h]

theorem shouldReport_iff_not_suppresses {key : Fault.Key} {now : Moment} :
    (t.shouldReport key now).1 = true ↔ ¬ t.suppresses key now = true := by
  by_cases h : t.suppresses key now = true
  · rw [shouldReport_of_suppresses h]
    exact iff_of_false Bool.false_ne_true (not_not_intro h)
  · rw [shouldReport_of_not_suppresses h]
    exact iff_of_true rfl h

theorem suppresses_iff {key : Fault.Key} {now : Moment} :
    t.suppresses key now = true ↔
      ∃ saved, t.saved = some saved ∧ saved.key = key ∧ now < saved.expiresAt := by
  unfold suppresses
  cases t.saved with
  | none => simp
  | some saved => simp

theorem Remembers.shouldReport (h : t.Remembers history) (q : Query) :
    (t.shouldReport q.key q.moment).2.Remembers
      (history ++ [(q, (t.shouldReport q.key q.moment).1)]) := by
  by_cases hsup : t.suppresses q.key q.moment = true
  · obtain ⟨saved, hsaved, hkey, -⟩ := suppresses_iff.mp hsup
    rw [shouldReport_of_suppresses hsup]
    refine ⟨?_, ?_⟩
    · rw [h.saved, List.filter_append]
      simp
    · rw [lastReported, hsaved]
      simp [hkey]
  · rw [shouldReport_of_not_suppresses hsup]
    refine ⟨?_, ?_⟩
    · rw [List.filter_append]
      simp
    · simp [lastReported]

theorem Remembers.saved_of_ne_nil (h : t.Remembers history) (hne : history ≠ []) :
    ∃ before report, history.getLast? = some before ∧
      (history.filter (·.2)).getLast? = some report ∧
      t.saved = some ⟨before.1.key, report.1.moment + t.window.nanos⟩ := by
  have hbefore := List.getLast?_eq_some_getLast hne
  have hsaved := h.saved
  have hkey := h.key
  rw [lastReported, hsaved, hbefore] at hkey
  cases hreport : (history.filter (·.2)).getLast? with
  | none =>
      rw [hreport] at hkey
      cases hkey
  | some report =>
      rw [hreport] at hkey hsaved
      have hsame : report.1.key = (history.getLast hne).1.key := Option.some.inj hkey
      exact ⟨_, report, hbefore, rfl, hsame ▸ hsaved⟩

theorem due_iff {window : Duration} {before report : Query × Bool}
    (hbefore : history.getLast? = some before)
    (hreport : (history.filter (·.2)).getLast? = some report) :
    Due window history q ↔
      before.1.key ≠ q.key ∨ report.1.moment + window.nanos ≤ q.moment := by
  have hne : history ≠ [] := by
    rintro rfl
    cases hbefore
  simp [Due, hne, hbefore, hreport]

/-- The slot reports what is due after the history that it remembers. -/
theorem Remembers.shouldReport_iff (h : t.Remembers history) (q : Query) :
    (t.shouldReport q.key q.moment).1 = true ↔ Due t.window history q := by
  rw [shouldReport_iff_not_suppresses]
  by_cases hne : history = []
  · subst hne
    refine iff_of_true ?_ (.inl rfl)
    rw [suppresses_iff]
    rintro ⟨saved, hsome, -⟩
    rw [h.saved] at hsome
    cases hsome
  · obtain ⟨before, report, hbefore, hreport, hsaved⟩ := h.saved_of_ne_nil hne
    have hsup : t.suppresses q.key q.moment = true ↔
        before.1.key = q.key ∧ q.moment < report.1.moment + t.window.nanos := by
      rw [suppresses_iff, hsaved]
      simp
    rw [due_iff hbefore hreport, hsup, not_and_or, Nat.not_lt]

/-! ### Whole sequences -/

theorem Remembers.verdicts_iff (h : t.Remembers history) {queries : List Query}
    {earlier later : List (Query × Bool)} {reported : Bool}
    (hsplit : t.verdicts queries = earlier ++ (q, reported) :: later) :
    reported = true ↔ Due t.window (history ++ earlier) q := by
  induction queries generalizing t history earlier with
  | nil => simp [verdicts] at hsplit
  | cons first rest ih =>
      cases earlier with
      | nil =>
          obtain ⟨hhead, -⟩ := List.cons.inj hsplit
          obtain ⟨rfl, rfl⟩ := Prod.mk.inj hhead
          rw [List.append_nil]
          exact h.shouldReport_iff first
      | cons head earlier =>
          obtain ⟨rfl, htail⟩ := List.cons.inj hsplit
          have hrest := ih (h.shouldReport first) htail
          rwa [window_shouldReport, List.append_assoc] at hrest

/-- A fresh slot goes by the rule. -/
theorem byRule_verdicts (window : Duration) (queries : List Query) :
    ByRule window (verdicts ⟨window, none⟩ queries) := by
  intro earlier q reported later hsplit
  exact (remembers_nil window).verdicts_iff hsplit

/-- Whatever is asked falls into the window of a report with its key: one of a query so far, or the
one that the slot started with. -/
theorem within_report_of_mem (hwindow : 0 < t.window.nanos) {queries : List Query}
    (hmem : q ∈ queries) :
    (∃ report, (report, true) ∈ t.verdicts queries ∧ report.key = q.key ∧
      q.moment < report.moment + t.window.nanos) ∨
    ∃ saved, t.saved = some saved ∧ saved.key = q.key ∧ q.moment < saved.expiresAt := by
  induction queries generalizing t with
  | nil => cases hmem
  | cons first rest ih =>
      by_cases hsup : t.suppresses first.key first.moment = true
      · rcases List.mem_cons.mp hmem with rfl | hrest
        · exact .inr (suppresses_iff.mp hsup)
        · simp only [verdicts, shouldReport_of_suppresses hsup]
          rcases ih hwindow hrest with ⟨report, hreport, hwithin⟩ | hsaved
          · exact .inl ⟨report, List.mem_cons_of_mem _ hreport, hwithin⟩
          · exact .inr hsaved
      · simp only [verdicts, shouldReport_of_not_suppresses hsup]
        rcases List.mem_cons.mp hmem with rfl | hrest
        · exact .inl ⟨q, List.mem_cons_self, rfl, Nat.lt_add_of_pos_right hwindow⟩
        · rcases ih (t := { t with saved := some ⟨first.key, first.moment + t.window.nanos⟩ })
            hwindow hrest with ⟨report, hreport, hwithin⟩ | ⟨saved, hsaved, hkey, hwithin⟩
          · exact .inl ⟨report, List.mem_cons_of_mem _ hreport, hwithin⟩
          · cases hsaved
            exact .inl ⟨first, List.mem_cons_self, hkey, hwithin⟩

end Throttle

end HostGauge
