import HostGauge.Processor
import HostGauge.Proofs.Text.Line

/-!
The facts about the processors, one for each of two calls. The number comes from how the listing
ended and the width from how the summary ended, so neither says anything about the other. The
message of a number that could not be had is fixed by the outcome alone.
-/
namespace HostGauge

/-- A line of the listing that stands for a processor. -/
def IsProcessorLine (line : List Char) : Prop := ∃ c rest, line = c :: rest ∧ c.isDigit

/-- How many of the lines stand for a processor. -/
inductive Numbered : List (List Char) → ℕ → Prop
  | stop : Numbered [] 0
  | processor {line : List Char} {rest : List (List Char)} {n : ℕ}
      (listed : IsProcessorLine line) (tail : Numbered rest n) : Numbered (line :: rest) (n + 1)
  | other {line : List Char} {rest : List (List Char)} {n : ℕ}
      (listed : ¬ IsProcessorLine line) (tail : Numbered rest n) : Numbered (line :: rest) n

/-- Why an outcome gives no number of processors, in the words of the fault. -/
inductive Uncounted (path : String) : Outcome → String → Prop
  | notStarted (cause : FileFault) :
      Uncounted path (.notStarted cause) (path ++ ": " ++ cause.message)
  | failed {status : ExitStatus} (output : List UInt8) (failure : status ≠ .code 0) :
      Uncounted path (.ended status output) (path ++ " exited with " ++ status.message)
  | noneListed {output : List UInt8}
      (none : Numbered (Text.lines (Text.Utf8.decodeLenient output)) 0) :
      Uncounted path (.ended (.code 0) output) "No CPUs found"

/-- What an outcome of the listing comes to: a number other than zero, or why there is none. -/
inductive Counts (path : String) (o : Outcome) : Except Fault ℕ → Prop
  | number {output : List UInt8} {n : ℕ} (ended : o = .ended (.code 0) output)
      (numbered : Numbered (Text.lines (Text.Utf8.decodeLenient output)) n) (some : n ≠ 0) :
      Counts path o (.ok n)
  | unavailable {cause : Absence} (uncounted : Uncounted path o cause.message) :
      Counts path o (.error (.unavailable cause))

/-- The first line of operation modes of a text. -/
def IsModeLine (text line : List Char) : Prop :=
  ∃ before after, Text.lines text = before ++ line :: after ∧
    ProcessorFacts.modeLabel <+: line ∧ ∀ other ∈ before, ¬ ProcessorFacts.modeLabel <+: other

/-- The summary ended well, and no line of modes in it, or not the first one, lists 64 bits. -/
def Outcome.ListsNarrow (o : Outcome) : Prop :=
  ∃ output, o = .ended (.code 0) output ∧
    ∀ line, IsModeLine (Text.Utf8.decodeLenient output) line → ¬ "64-bit".toList <:+: line

theorem Host.runText_of_notStarted {host : Host} {command : Command} {cause : FileFault}
    (h : host.run command = .notStarted cause) :
    host.runText command = .error (.unavailable (.utilityNotStarted command.path cause)) := by
  rw [runText, h]

theorem Host.runText_of_failed {host : Host} {command : Command} {status : ExitStatus}
    {output : List UInt8} (h : host.run command = .ended status output)
    (failure : status ≠ .code 0) :
    host.runText command = .error (.unavailable (.utilityFailed command.path status)) := by
  rw [runText, h]
  split
  next heq => cases heq
  next heq =>
    cases heq
    exact absurd rfl failure
  next heq =>
    cases heq
    rfl

theorem Host.runText_of_success {host : Host} {command : Command} {output : List UInt8}
    (h : host.run command = .ended (.code 0) output) :
    host.runText command = .ok (Text.Utf8.decodeLenient output) := by
  rw [runText, h]
  rfl

theorem isProcessorLine_iff {line : List Char} :
    IsProcessorLine line ↔ line.head?.any Char.isDigit := by
  cases line with
  | nil => simp [IsProcessorLine]
  | cons c rest => simp [IsProcessorLine]

theorem numbered_countLines (listing : List Char) :
    Numbered (Text.lines listing) (ProcessorFacts.countLines listing) := by
  unfold ProcessorFacts.countLines
  induction Text.lines listing with
  | nil => exact .stop
  | cons line rest ih =>
      rw [List.countP_cons]
      by_cases listed : line.head?.any Char.isDigit
      · rw [if_pos listed]
        exact .processor (isProcessorLine_iff.mpr listed) ih
      · rw [if_neg listed, Nat.add_zero]
        exact .other (mt isProcessorLine_iff.mp listed) ih

theorem isModeLine_iff {text line : List Char} :
    IsModeLine text line ↔
      (Text.lines text).find? ProcessorFacts.modeLabel.isPrefixOf = some line := by
  rw [List.find?_eq_some_iff_append, List.isPrefixOf_iff_prefix]
  constructor
  · rintro ⟨before, after, hlines, hline, hbefore⟩
    refine ⟨hline, before, after, hlines, ?_⟩
    intro other hother
    rw [Bool.not_eq_true', ← Bool.not_eq_true, List.isPrefixOf_iff_prefix]
    exact hbefore other hother
  · rintro ⟨hline, before, after, hlines, hbefore⟩
    refine ⟨before, after, hlines, hline, ?_⟩
    intro other hother
    have hno := hbefore other hother
    rw [Bool.not_eq_true', ← Bool.not_eq_true, List.isPrefixOf_iff_prefix] at hno
    exact hno

namespace ProcessorFacts

variable {host : Host} {root : String}

theorem lists64Bit_iff {text : List Char} :
    lists64Bit text ↔ ∃ line, IsModeLine text line ∧ "64-bit".toList <:+: line := by
  unfold lists64Bit
  cases hfind : (Text.lines text).find? modeLabel.isPrefixOf with
  | none =>
      refine iff_of_false Bool.false_ne_true ?_
      rintro ⟨line, hline, -⟩
      rw [isModeLine_iff, hfind] at hline
      cases hline
  | some line =>
      rw [Option.any_some, Text.contains_iff]
      constructor
      · intro h
        exact ⟨line, isModeLine_iff.mpr hfind, h⟩
      · rintro ⟨other, hother, h⟩
        rw [isModeLine_iff, hfind] at hother
        cases hother
        exact h

/-- The number comes from how the listing ended. -/
theorem counts_count (host : Host) (root : String) :
    Counts (listing root).path (host.run (listing root)) (read host root).count := by
  have hcount : (read host root).count = (host.runText (listing root)).bind countOf := rfl
  rw [hcount]
  cases hrun : host.run (listing root) with
  | notStarted cause =>
      rw [Host.runText_of_notStarted hrun]
      exact .unavailable (.notStarted cause)
  | ended status output =>
      by_cases success : status = .code 0
      · subst success
        rw [Host.runText_of_success hrun]
        have numbered := numbered_countLines (Text.Utf8.decodeLenient output)
        unfold Except.bind countOf
        dsimp only
        split
        next heq =>
          rw [heq] at numbered
          exact .unavailable (.noneListed numbered)
        next heq => exact .number rfl numbered heq
      · rw [Host.runText_of_failed hrun success]
        exact .unavailable (.failed output success)

/-- The width comes from how the summary ended. -/
theorem not_is64Bit_iff (host : Host) (root : String) :
    (read host root).is64Bit = false ↔ (host.run (summary root)).ListsNarrow := by
  unfold read Outcome.ListsNarrow
  cases hrun : host.run (summary root) with
  | notStarted cause =>
      rw [Host.runText_of_notStarted hrun]
      simp
  | ended status output =>
      by_cases success : status = .code 0
      · subst success
        rw [Host.runText_of_success hrun]
        dsimp only
        rw [← Bool.not_eq_true, lists64Bit_iff]
        constructor
        · intro h
          refine ⟨output, rfl, ?_⟩
          intro line hline h64
          exact h ⟨line, hline, h64⟩
        · rintro ⟨other, hother, h⟩ ⟨line, hline, h64⟩
          cases hother
          exact h line hline h64
      · rw [Host.runText_of_failed hrun success]
        simp [success]

theorem count_congr {other : Host} (h : host.run (listing root) = other.run (listing root)) :
    (read host root).count = (read other root).count := by
  have hlisting : host.runText (listing root) = other.runText (listing root) := by
    rw [Host.runText, Host.runText, h]
  exact congrArg (·.bind countOf) hlisting

theorem is64Bit_congr {other : Host} (h : host.run (summary root) = other.run (summary root)) :
    (read host root).is64Bit = (read other root).is64Bit := by
  rw [Bool.eq_iff_iff, ← not_iff_not, Bool.not_eq_true, Bool.not_eq_true, not_is64Bit_iff,
    not_is64Bit_iff, h]

end ProcessorFacts

end HostGauge
