import HostGauge.Memory
import HostGauge.Proofs.Numeral
import HostGauge.Proofs.Selection
import HostGauge.Proofs.Text.Field
import Mathlib.Data.List.Induction

/-!
Memory by the lines of a text. Reading stops at the shortest part of the lines that has a line of
both labels, and of each label the last value in this part stays. With one line of each label it
makes no difference where reading stops, how the lines are arranged and what stands between them.
-/
namespace HostGauge.Memory

inductive Label where
  | total
  | available
  deriving DecidableEq, Repr

def Label.text : Label → String
  | total => "MemTotal:"
  | available => "MemAvailable:"

/-- A line counts for a label: its fields begin with the label, a numeral and the unit. -/
def Counts (label : Label) (line : List Char) (n : UInt64) : Prop :=
  ∃ amount rest, Text.Spaced (label.text.toList :: amount :: "kB".toList :: rest) line ∧
    Numeral.IsNumeral amount n

def Lacks (label : Label) (lines : List (List Char)) : Prop :=
  ∀ line ∈ lines, ∀ n, ¬ Counts label line n

/-- The value on the last line that counts for a label. -/
def LastValue (label : Label) (lines : List (List Char)) (n : UInt64) : Prop :=
  ∃ earlier line later, lines = earlier ++ line :: later ∧ Counts label line n ∧ Lacks label later

/-- The value on the one line that counts for a label. -/
def OnlyValue (label : Label) (lines : List (List Char)) (n : UInt64) : Prop :=
  ∃ earlier line later, lines = earlier ++ line :: later ∧ Lacks label earlier ∧
    Counts label line n ∧ Lacks label later

/-- The shortest part of some lines, from the first one on, that has a line for each label. -/
structure IsShortest (lines read : List (List Char)) : Prop where
  isPrefix : read <+: lines
  has : ∀ label, ¬ Lacks label read
  shortest : ∀ shorter, shorter <+: read → shorter ≠ read → ∃ label, Lacks label shorter

/-- Lines in another arrangement, with lines that count for no label put in or taken out. -/
inductive Rearranged : List (List Char) → List (List Char) → Prop
  | permuted {lines lines' : List (List Char)} (h : lines.Perm lines') : Rearranged lines lines'
  | inserted {before after : List (List Char)} {line : List Char}
      (h : ∀ label, Lacks label [line]) : Rearranged (before ++ after) (before ++ line :: after)
  | removed {before after : List (List Char)} {line : List Char}
      (h : ∀ label, Lacks label [line]) : Rearranged (before ++ line :: after) (before ++ after)
  | trans {lines lines' lines'' : List (List Char)} (h : Rearranged lines lines')
      (h' : Rearranged lines' lines'') : Rearranged lines lines''

variable {label : Label} {lines lines' read rest : List (List Char)} {line : List Char}
  {n : UInt64} {seen : Seen}

/-! ### The values of a label -/

def value? (label : Label) (line : List Char) : Option UInt64 :=
  ( entry? line).bind fun e => if e.1 = label.text then some e.2 else none

def values (label : Label) (lines : List (List Char)) : List UInt64 :=
  lines.filterMap (value? label)

theorem value?_eq_some_iff : value? label line = some n ↔ Counts label line n := by
  unfold value? entry?
  constructor
  · intro h
    split at h
    case h_1 first amount unit rest hfields =>
      split at h
      case isTrue hunit =>
        obtain ⟨e, he, hvalue⟩ := Option.bind_eq_some_iff.mp h
        obtain ⟨m, hm, rfl⟩ := Option.map_eq_some_iff.mp he
        rw [Option.ite_none_right_eq_some, Option.some_inj] at hvalue
        obtain ⟨hlabel, rfl⟩ := hvalue
        refine ⟨amount, rest, ?_, Numeral.word64?_eq_some_iff.mp hm⟩
        rw [← hlabel, String.toList_ofList, ← Text.fields_eq_iff, hfields, hunit]
        rfl
      case isFalse => cases h
    case h_2 => cases h
  · rintro ⟨amount, rest, hfields, hamount⟩
    rw [hfields.fields]
    dsimp only
    rw [Numeral.word64?_eq_some_iff.mpr hamount, if_pos (by rfl), Option.map_some,
      Option.bind_some, if_pos String.ofList_toList]

theorem lacks_iff_value? : Lacks label lines ↔ ∀ line ∈ lines, value? label line = none :=
  forall_not_iff fun _ _ => value?_eq_some_iff

theorem lacks_iff : Lacks label lines ↔ values label lines = [] := by
  rw [lacks_iff_value?, values, List.filterMap_eq_nil_iff]

theorem onlyValue_iff : OnlyValue label lines n ↔ values label lines = [n] := by
  rw [values, List.filterMap_eq_cons_iff]
  simp only [OnlyValue, lacks_iff_value?, ← value?_eq_some_iff, List.filterMap_eq_nil_iff]

theorem values_append (label : Label) (lines lines' : List (List Char)) :
    values label (lines ++ lines') = values label lines ++ values label lines' :=
  List.filterMap_append

theorem values_cons (label : Label) (line : List Char) (lines : List (List Char)) :
    values label (line :: lines) = (value? label line).toList ++ values label lines := by
  unfold values
  cases h : value? label line with
  | none => exact List.filterMap_cons_none h
  | some n => exact List.filterMap_cons_some h

theorem lastValue_iff : LastValue label lines n ↔ (values label lines).getLast? = some n :=
  isLast_iff fun _ _ => value?_eq_some_iff

/-! ### What was seen -/

def Seen.get (seen : Seen) : Label → Option UInt64
  | .total => seen.total
  | .available => seen.available

theorem get_add (seen : Seen) (line : List Char) (label : Label) :
    (seen.add line).get label = (value? label line).or (seen.get label) := by
  unfold Seen.add value?
  cases entry? line with
  | none => rfl
  | some e =>
      obtain ⟨text, n⟩ := e
      dsimp only [Option.bind_some]
      split
      case h_1 heq =>
        cases heq
        cases label with
        | total => rfl
        | available => rw [if_neg (by decide)]; rfl
      case h_2 heq =>
        cases heq
        cases label with
        | total => rw [if_neg (by decide)]; rfl
        | available => rfl
      case h_3 htotal havailable =>
        have hother : text ≠ label.text := by
          rintro rfl
          cases label with
          | total => exact htotal n rfl
          | available => exact havailable n rfl
        rw [if_neg hother, Option.none_or]

theorem get_foldl_add (lines : List (List Char)) (seen : Seen) (label : Label) :
    (lines.foldl Seen.add seen).get label =
      (values label lines).getLast?.or (seen.get label) := by
  induction lines generalizing seen with
  | nil => rfl
  | cons line lines ih =>
      rw [List.foldl_cons, ih, get_add, values_cons, List.getLast?_append, Option.or_assoc]
      cases value? label line <;> rfl

theorem isComplete_iff : seen.isComplete ↔ ∀ label, seen.get label ≠ none := by
  unfold Seen.isComplete
  rw [Bool.and_eq_true, Option.isSome_iff_ne_none, Option.isSome_iff_ne_none]
  constructor
  · rintro ⟨htotal, havailable⟩ label
    cases label with
    | total => exact htotal
    | available => exact havailable
  · intro h
    exact ⟨h .total, h .available⟩

/-- From the start on everything is seen once there was a line for each label. -/
theorem isComplete_foldl_iff :
    (lines.foldl Seen.add {}).isComplete ↔ ∀ label, ¬ Lacks label lines := by
  rw [isComplete_iff]
  refine forall_congr' fun label => ?_
  have hnone : ({} : Seen).get label = none := by cases label <;> rfl
  rw [get_foldl_add, hnone, Option.or_none, lacks_iff]
  exact not_congr List.getLast?_eq_none_iff

theorem isComplete_foldl (h : seen.isComplete) (lines : List (List Char)) :
    (lines.foldl Seen.add seen).isComplete := by
  rw [isComplete_iff] at h ⊢
  intro label
  rw [get_foldl_add]
  exact fun hnone => h label (Option.or_eq_none_iff.mp hnone).2

/-! ### Where reading stops -/

theorem scan_of_not_isComplete (h : (lines.foldl Seen.add seen).isComplete = false) :
    scan seen lines = lines.foldl Seen.add seen := by
  induction lines generalizing seen with
  | nil => rfl
  | cons line lines ih =>
      have hfirst : (seen.add line).isComplete = false := by
        rw [← Bool.not_eq_true]
        intro hcomplete
        rw [List.foldl_cons, isComplete_foldl hcomplete] at h
        cases h
      rw [scan, hfirst]
      exact ih h

/-- Lines that make everything seen, and do so only with the last of them, are those read. -/
theorem scan_append (hread : (read.foldl Seen.add seen).isComplete)
    (hshort : ∀ shorter, shorter <+: read → shorter ≠ read →
      (shorter.foldl Seen.add seen).isComplete = false) (rest : List (List Char)) :
    read ≠ [] → scan seen (read ++ rest) = read.foldl Seen.add seen := by
  induction read generalizing seen with
  | nil => exact fun h => absurd rfl h
  | cons line read ih =>
      intro _
      rw [List.cons_append, scan]
      cases read with
      | nil =>
          have hcomplete : (seen.add line).isComplete := hread
          rw [hcomplete]
          rfl
      | cons next read =>
          have hfirst : (seen.add line).isComplete = false :=
            hshort [line] (by simp) (by simp)
          rw [hfirst]
          refine ih hread (fun shorter hprefix hne => ?_) (List.cons_ne_nil _ _)
          exact hshort (line :: shorter) (List.cons_prefix_cons.mpr ⟨rfl, hprefix⟩)
            fun h => hne (List.cons_inj_right line |>.mp h)

theorem IsShortest.scan (h : IsShortest lines read) :
    scan {} lines = read.foldl Seen.add {} := by
  obtain ⟨rest, rfl⟩ := h.isPrefix
  refine scan_append (isComplete_foldl_iff.mpr h.has) (fun shorter hprefix hne => ?_) rest ?_
  · rw [← Bool.not_eq_true, isComplete_foldl_iff]
    intro hall
    obtain ⟨label, hlacks⟩ := h.shortest shorter hprefix hne
    exact hall label hlacks
  · rintro rfl
    exact h.has .total fun _ hline => nomatch hline

theorem exists_isShortest (h : ∀ label, ¬ Lacks label lines) : ∃ read, IsShortest lines read := by
  induction lines using List.reverseRecOn with
  | nil => exact absurd (fun _ hline => nomatch hline) (h .total)
  | append_singleton before line ih =>
      by_cases hbefore : ∀ label, ¬ Lacks label before
      · obtain ⟨read, hread⟩ := ih hbefore
        exact ⟨read, hread.isPrefix.trans (List.prefix_append _ _), hread.has, hread.shortest⟩
      · refine ⟨before ++ [line], List.prefix_rfl, h, fun shorter hprefix hne => ?_⟩
        obtain ⟨label, hlacks⟩ := not_forall_not.mp hbefore
        have hshorter := (List.prefix_concat_iff.mp hprefix).resolve_left hne
        exact ⟨label, fun other hother => hlacks other (hshorter.subset hother)⟩

/-! ### What reading comes to -/

theorem get_seen (lines : List (List Char)) (label : Label) :
    (lines.foldl Seen.add {}).get label = (values label lines).getLast? := by
  rw [get_foldl_add]
  cases label <;> exact Option.or_none

instance : Decidable (Lacks label lines) := decidable_of_iff _ lacks_iff.symm

instance : Decidable (OnlyValue label lines n) := decidable_of_iff _ onlyValue_iff.symm

theorem exists_lastValue (h : ¬ Lacks label lines) : ∃ n, LastValue label lines n := by
  have hsome := List.getLast?_isSome.mpr (mt lacks_iff.mpr h)
  obtain ⟨n, hn⟩ := Option.isSome_iff_exists.mp hsome
  exact ⟨n, lastValue_iff.mpr hn⟩

theorem ofSeen_of_lastValue {value : Label → UInt64}
    (h : ∀ label, LastValue label lines (value label)) :
    ofSeen (lines.foldl Seen.add {}) = .ok ⟨value .available, value .total⟩ := by
  have hget : ∀ label, (lines.foldl Seen.add {}).get label = some (value label) := by
    intro label
    rw [get_seen, lastValue_iff.mp (h label)]
  have htotal : (lines.foldl Seen.add {}).total = _ := hget .total
  have havailable : (lines.foldl Seen.add {}).available = _ := hget .available
  rw [ofSeen, htotal, havailable]

/-- A label without a line is a fault, and that of the available memory comes first. -/
theorem parse_of_lacks {text : List Char} (h : Lacks label (Text.lines text)) :
    parse text = .error (.unavailable
      (if values .available (Text.lines text) = [] then .availableMemory else .totalMemory)) := by
  have hnot : ((Text.lines text).foldl Seen.add {}).isComplete = false := by
    rw [← Bool.not_eq_true, isComplete_foldl_iff]
    exact fun hall => hall label h
  have htotal : ((Text.lines text).foldl Seen.add {}).total = _ := get_seen _ .total
  have havailable : ((Text.lines text).foldl Seen.add {}).available = _ := get_seen _ .available
  rw [parse, scan_of_not_isComplete hnot, ofSeen, htotal, havailable]
  rw [lacks_iff] at h
  by_cases hnone : values .available (Text.lines text) = []
  · rw [if_pos hnone, hnone]
    rfl
  · rw [if_neg hnone]
    cases label with
    | available => exact absurd h hnone
    | total =>
        obtain ⟨n, hn⟩ := Option.isSome_iff_exists.mp (List.getLast?_isSome.mpr hnone)
        rw [h, hn]
        rfl

theorem Rearranged.perm_values (h : Rearranged lines lines') (label : Label) :
    (values label lines).Perm (values label lines') := by
  have hother : ∀ {before after : List (List Char)} {line : List Char},
      (∀ label, Lacks label [line]) →
        values label (before ++ line :: after) = values label (before ++ after) := by
    intro before after line hline
    have hnone := lacks_iff_value?.mp (hline label) line List.mem_cons_self
    rw [values_append, values_cons, hnone, values_append]
    rfl
  induction h with
  | permuted h => exact h.filterMap _
  | inserted h => rw [hother h]
  | removed h => rw [hother h]
  | trans _ _ ih ih' => exact ih.trans ih'

theorem OnlyValue.rearranged (h : OnlyValue label lines n) (hsame : Rearranged lines lines') :
    OnlyValue label lines' n := by
  rw [onlyValue_iff] at h ⊢
  have hperm := hsame.perm_values label
  rw [h] at hperm
  exact (List.singleton_perm.mp hperm).symm

/-- The one value of a label is the last one of every part in which the label has a line. -/
theorem OnlyValue.lastValue (h : OnlyValue label lines n) (hread : read <+: lines)
    (hhas : ¬ Lacks label read) : LastValue label read n := by
  obtain ⟨rest, rfl⟩ := hread
  rw [onlyValue_iff, values_append, List.append_eq_singleton_iff] at h
  rw [lacks_iff] at hhas
  rcases h with ⟨hnone, -⟩ | ⟨hvalue, -⟩
  · exact absurd hnone hhas
  · rw [lastValue_iff, hvalue]
    rfl

theorem OnlyValue.not_lacks (h : OnlyValue label lines n) : ¬ Lacks label lines := by
  rw [lacks_iff, onlyValue_iff.mp h]
  exact List.cons_ne_nil _ _

theorem parse_of_isShortest {text : List Char} (h : IsShortest (Text.lines text) read)
    {value : Label → UInt64} (hvalue : ∀ label, LastValue label read (value label)) :
    parse text = .ok ⟨value .available, value .total⟩ := by
  rw [parse, h.scan]
  exact ofSeen_of_lastValue hvalue

/-- With one line of each label, reading comes to their values, and so does reading to the end. -/
theorem parse_of_onlyValue {text : List Char} {value : Label → UInt64}
    (h : ∀ label, OnlyValue label (Text.lines text) (value label)) :
    parse text = .ok ⟨value .available, value .total⟩ ∧
      ofSeen ((Text.lines text).foldl Seen.add {}) = .ok ⟨value .available, value .total⟩ := by
  obtain ⟨read, hread⟩ := exists_isShortest fun label => (h label).not_lacks
  constructor
  · apply parse_of_isShortest hread
    intro label
    exact (h label).lastValue hread.isPrefix (hread.has label)
  · apply ofSeen_of_lastValue
    intro label
    exact (h label).lastValue List.prefix_rfl (h label).not_lacks

/-- The law of memory. Without a line for the available memory this is the fault, then without a
line for the total. With both, the values are the last ones in the shortest part of the lines that
has a line for each label. With one line for each label it makes no difference where reading stops,
how the lines are arranged and which other lines there are. -/
theorem read_by_lines (text : List Char) :
    (Lacks .available (Text.lines text) → ∃ cause, parse text = .error (.unavailable cause) ∧
      cause.message = "Available memory not found") ∧
    (¬ Lacks .available (Text.lines text) → Lacks .total (Text.lines text) →
      ∃ cause, parse text = .error (.unavailable cause) ∧
        cause.message = "Total memory not found") ∧
    (¬ Lacks .available (Text.lines text) → ¬ Lacks .total (Text.lines text) →
      ∃ read available total, IsShortest (Text.lines text) read ∧
        LastValue .available read available ∧ LastValue .total read total ∧
          parse text = .ok ⟨available, total⟩) ∧
    ((∀ label, ∃ n, OnlyValue label (Text.lines text) n) →
      (∀ text', Rearranged (Text.lines text) (Text.lines text') → parse text' = parse text) ∧
        ofSeen ((Text.lines text).foldl Seen.add {}) = parse text) := by
  refine ⟨?_, ?_, ?_, ?_⟩
  case refine_1 =>
    intro h
    refine ⟨.availableMemory, ?_, rfl⟩
    rw [parse_of_lacks h, if_pos (lacks_iff.mp h)]
  case refine_2 =>
    intro havailable h
    refine ⟨.totalMemory, ?_, rfl⟩
    rw [parse_of_lacks h, if_neg (mt lacks_iff.mpr havailable)]
  case refine_3 =>
    intro havailable htotal
    have hhas : ∀ label, ¬ Lacks label (Text.lines text) := by
      intro label
      cases label <;> assumption
    obtain ⟨read, hread⟩ := exists_isShortest hhas
    choose value hvalue using fun label => exists_lastValue (hread.has label)
    exact ⟨read, _, _, hread, hvalue .available, hvalue .total, parse_of_isShortest hread hvalue⟩
  case refine_4 =>
    intro h
    choose value hvalue using h
    obtain ⟨hparse, hall⟩ := parse_of_onlyValue hvalue
    refine ⟨fun text' hsame => ?_, hall.trans hparse.symm⟩
    have hvalue' := fun label => (hvalue label).rearranged hsame
    rw [hparse, (parse_of_onlyValue hvalue').1]

/-- A value is replaced before the other label is there and not after it; one line of each label is
read alike behind another line and with the two exchanged. -/
theorem read_by_lines_repeated :
    (∃ read available total,
      IsShortest (Text.lines
        "MemTotal: 5 kB\nMemTotal: +6 kB x\nMemAvailable: 2 kB\nMemTotal: 7 kB".toList) read ∧
      LastValue .available read available ∧ LastValue .total read total ∧
      parse "MemTotal: 5 kB\nMemTotal: +6 kB x\nMemAvailable: 2 kB\nMemTotal: 7 kB".toList =
        .ok ⟨available, total⟩) ∧
    parse "MemAvailable: 3 kB\r\nMemTotal: 8 kB".toList =
      parse "MemTotal: 9 MB\nMemTotal: 8 kB\nMemAvailable: 3 kB\n".toList ∧
    ∃ cause, parse "MemAvailable: 3 kB".toList = .error (.unavailable cause) ∧
      cause.message = "Total memory not found" := by
  refine ⟨?_, ?_, ?_⟩
  case refine_1 => exact (read_by_lines _).2.2.1 (by decide +kernel) (by decide +kernel)
  case refine_2 =>
    have hother : ∀ label, Lacks label ["MemTotal: 9 MB".toList] := by
      intro label
      cases label <;> decide +kernel
    have hlines : Text.lines "MemTotal: 9 MB\nMemTotal: 8 kB\nMemAvailable: 3 kB\n".toList =
        ["MemTotal: 9 MB".toList, "MemTotal: 8 kB".toList, "MemAvailable: 3 kB".toList] := by
      decide +kernel
    have hlines' : Text.lines "MemAvailable: 3 kB\r\nMemTotal: 8 kB".toList =
        ["MemAvailable: 3 kB".toList, "MemTotal: 8 kB".toList] := by
      decide +kernel
    refine ((read_by_lines _).2.2.2 ?_).1 _ ?_
    · intro label
      cases label with
      | total => exact ⟨8, by decide +kernel⟩
      | available => exact ⟨3, by decide +kernel⟩
    · rw [hlines, hlines']
      exact .trans (@Rearranged.removed [] _ _ hother) (.permuted (.swap _ _ _))
  case refine_3 => exact (read_by_lines _).2.1 (by decide +kernel) (by decide +kernel)

end HostGauge.Memory
