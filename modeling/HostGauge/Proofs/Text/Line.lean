import HostGauge.Text.Line
import Mathlib.Data.List.Basic

/-!
The lines of a text. A reader that gets nothing from an empty line, and the same from a line with
and without a carriage return at its end, reads a text as the pieces between the line feeds: it
makes no difference how lines end, and texts that are put together with a line feed are read one
after the other.
-/
namespace HostGauge.Text

variable {line s rest : List Char} {sep : Char}

/-- A line ends with a line feed, with a carriage return before it or without, or with the text. -/
inductive EndsLine : List Char → List Char → Prop
  | feed (rest : List Char) : EndsLine ('\n' :: rest) rest
  | returnFeed (rest : List Char) : EndsLine ('\r' :: '\n' :: rest) rest
  | stop : EndsLine [] []

theorem chomp_cases (line : List Char) : chomp line = line ∨ line = chomp line ++ ['\r'] := by
  unfold chomp
  split
  case isTrue hlast => exact .inr (List.dropLast_append_getLast? _ hlast).symm
  case isFalse => exact .inl rfl

section Reader

variable {α : Type*} {f : List Char → Option α} (hnil : f [] = none)
  (hreturn : ∀ line, f (line ++ ['\r']) = f line)

include hnil hreturn

theorem filterMap_closeLines (pieces : List (List Char)) :
    (closeLines pieces).filterMap f = pieces.filterMap f := by
  induction pieces with
  | nil => rfl
  | cons piece pieces ih =>
      cases pieces with
      | nil =>
          unfold closeLines
          split
          case isTrue hempty =>
            rw [List.isEmpty_iff.mp hempty, List.filterMap_cons_none hnil]
          case isFalse => rfl
      | cons next pieces =>
          have hchomp : f (chomp piece) = f piece := by
            rcases chomp_cases piece with h | h
            · rw [h]
            · exact (hreturn _).symm.trans (congrArg f h.symm)
          rw [closeLines, List.filterMap_cons, List.filterMap_cons, hchomp, ih]

theorem filterMap_lines (s : List Char) :
    (lines s).filterMap f = (s.splitOn '\n').filterMap f := filterMap_closeLines hnil hreturn _

/-- Texts that are put together with a line feed are read one after the other. -/
theorem filterMap_lines_append (a b : List Char) :
    (lines (a ++ '\n' :: b)).filterMap f = (lines a).filterMap f ++ (lines b).filterMap f := by
  rw [filterMap_lines hnil hreturn, filterMap_lines hnil hreturn, filterMap_lines hnil hreturn,
    List.splitOn_append_cons_self, List.filterMap_append]

theorem filterMap_lines_line (hline : '\n' ∉ line) :
    (lines line).filterMap f = (f line).toList := by
  rw [filterMap_lines hnil hreturn, List.splitOn_eq_singleton hline]
  cases hf : f line with
  | none => rw [List.filterMap_cons_none hf]; rfl
  | some a => rw [List.filterMap_cons_some hf]; rfl

/-- However a line ends, it is read first, and what comes after it is read as a text of its own. -/
theorem filterMap_lines_ended {tail : List Char} (hline : '\n' ∉ line) (hend : EndsLine tail rest) :
    (lines (line ++ tail)).filterMap f = (f line).toList ++ (lines rest).filterMap f := by
  cases hend with
  | feed rest =>
      rw [filterMap_lines_append hnil hreturn, filterMap_lines_line hnil hreturn hline]
  | returnFeed rest =>
      have hreturned : '\n' ∉ line ++ ['\r'] := by simpa using hline
      have hsplit : line ++ '\r' :: '\n' :: rest = (line ++ ['\r']) ++ '\n' :: rest := by simp
      rw [hsplit, filterMap_lines_append hnil hreturn, filterMap_lines_line hnil hreturn hreturned,
        hreturn]
  | stop =>
      rw [List.append_nil, filterMap_lines_line hnil hreturn hline]
      exact (List.append_nil _).symm

end Reader

/-! ### The first separator -/

theorem splitOnce_of_not_mem (h : sep ∉ s) : splitOnce sep s = none := by
  induction s with
  | nil => rfl
  | cons c s ih =>
      have hc : sep ≠ c := List.ne_of_not_mem_cons h
      rw [splitOnce, if_neg hc.symm, ih (List.not_mem_of_not_mem_cons h), Option.map_none]

theorem splitOnce_append (h : sep ∉ s) (rest : List Char) :
    splitOnce sep (s ++ sep :: rest) = some (s, rest) := by
  induction s with
  | nil => rw [List.nil_append, splitOnce, if_pos rfl]
  | cons c s ih =>
      have hc : sep ≠ c := List.ne_of_not_mem_cons h
      rw [List.cons_append, splitOnce, if_neg hc.symm, ih (List.not_mem_of_not_mem_cons h),
        Option.map_some]

/-! ### The beginning of a line -/

theorem stripStart_eq_some_iff {start : List Char} :
    stripStart start s = some rest ↔ s = start ++ rest := by
  unfold stripStart
  rw [Option.ite_none_right_eq_some, List.isPrefixOf_iff_prefix, Option.some_inj]
  constructor
  · rintro ⟨⟨behind, rfl⟩, rfl⟩
    rw [List.drop_left]
  · rintro rfl
    exact ⟨List.prefix_append start rest, List.drop_left⟩

theorem stripStart_eq_none_iff {start : List Char} : stripStart start s = none ↔ ¬ start <+: s := by
  unfold stripStart
  rw [ite_eq_right_iff, List.isPrefixOf_iff_prefix]
  exact forall_congr' fun _ => by simp

/-! ### Parts of a line -/

theorem contains_iff {part : List Char} : contains part s ↔ part <:+: s := by
  induction s with
  | nil => rw [contains, List.isEmpty_iff, List.infix_nil]
  | cons c s ih =>
      rw [contains, Bool.or_eq_true, ih, List.isPrefixOf_iff_prefix, List.infix_cons_iff]

end HostGauge.Text
