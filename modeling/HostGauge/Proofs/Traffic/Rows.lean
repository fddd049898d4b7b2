import HostGauge.Proofs.Numeral
import HostGauge.Proofs.Text.Field
import HostGauge.Proofs.Text.Line
import HostGauge.Traffic

/-!
The table of interfaces, by the lines that show its rows. A table in this layout is read as its
rows, whatever blanks pad them, however its lines end and whatever other lines stand between them.
-/
namespace HostGauge.InterfaceRow

open Text (IsGap IsWord Spaced)

variable {row : InterfaceRow} {rows : List InterfaceRow} {line name text : List Char}

/-- A name with blanks around it, a colon, and tokens of which the first and the ninth are the
counters. -/
inductive Shows (row : InterfaceRow) : List Char → Prop
  | intro {before after counters received sent : List Char} {between more : List (List Char)}
      (hbefore : IsGap before ∧ '\n' ∉ before) (hname : IsWord row.device.toList)
      (hcolon : ':' ∉ row.device.toList) (hafter : IsGap after ∧ '\n' ∉ after)
      (hcounters : Spaced (received :: (between ++ sent :: more)) counters)
      (hfeed : '\n' ∉ counters) (hbetween : between.length = 7)
      (hreceived : Numeral.IsNumeral received row.received)
      (hsent : Numeral.IsNumeral sent row.sent) :
      Shows row (before ++ (row.device.toList ++ after) ++ ':' :: counters)

/-- A line without a colon, one with nothing or with several words in front of its first colon, and
one with fewer than nine tokens after it. -/
inductive IsOther : List Char → Prop
  | noColon {line : List Char} (hcolon : ':' ∉ line) : IsOther line
  | noName {name rest : List Char} (hcolon : ':' ∉ name) (hname : IsGap name) :
      IsOther (name ++ ':' :: rest)
  | severalWords {name rest first second : List Char} {more : List (List Char)}
      (hcolon : ':' ∉ name) (hname : Spaced (first :: second :: more) name) :
      IsOther (name ++ ':' :: rest)
  | short {name rest : List Char} {tokens : List (List Char)} (hcolon : ':' ∉ name)
      (hrest : Spaced tokens rest) (hshort : tokens.length < 9) : IsOther (name ++ ':' :: rest)

/-- Rows one to a line, with other lines between them. -/
inductive TableText : List InterfaceRow → List Char → Prop
  | nil : TableText [] []
  | row {row : InterfaceRow} {rows : List InterfaceRow} {line tail rest : List Char}
      (hrow : row.Shows line) (hend : Text.EndsLine tail rest) (h : TableText rows rest) :
      TableText (row :: rows) (line ++ tail)
  | other {rows : List InterfaceRow} {line tail rest : List Char} (hother : IsOther line)
      (hfeed : '\n' ∉ line) (hend : Text.EndsLine tail rest) (h : TableText rows rest) :
      TableText rows (line ++ tail)

/-! ### One line -/

theorem ofLine?_of_not_mem (h : ':' ∉ line) : ofLine? line = none := by
  unfold ofLine?
  rw [Text.splitOnce_of_not_mem h]

/-- The row of a name and the tokens after it. -/
def ofTokens? (name : List Char) (tokens : List (List Char)) : Option InterfaceRow :=
  match tokens[0]?, tokens[8]? with
  | some received, some sent =>
    some ⟨String.ofList name, (Numeral.word64? received).getD 0, (Numeral.word64? sent).getD 0⟩
  | _, _ => none

theorem ofLine?_append (h : ':' ∉ name) (rest : List Char) :
    ofLine? (name ++ ':' :: rest) =
      if IsWord (Text.trim name) then ofTokens? (Text.trim name) (Text.fields rest) else none := by
  unfold ofLine?
  rw [Text.splitOnce_append h]
  dsimp only
  by_cases hword : IsWord (Text.trim name)
  · rw [if_pos hword, if_neg (mt Text.not_isWord_iff.mpr (not_not.mpr hword))]
    rfl
  · rw [if_neg hword, if_pos (Text.not_isWord_iff.mp hword)]

theorem ofLine?_return (line : List Char) : ofLine? (line ++ ['\r']) = ofLine? line := by
  by_cases hcolon : ':' ∈ line
  · obtain ⟨name, rest, rfl, hname⟩ := List.eq_append_cons_of_mem hcolon
    rw [List.append_assoc, List.cons_append, ofLine?_append hname, ofLine?_append hname,
      Text.fields_return]
  · have hreturned : ':' ∉ line ++ ['\r'] := by simpa using hcolon
    rw [ofLine?_of_not_mem hcolon, ofLine?_of_not_mem hreturned]

theorem ofTokens?_of_length {tokens : List (List Char)} (h : tokens.length < 9)
    (name : List Char) : ofTokens? name tokens = none := by
  unfold ofTokens?
  rw [List.getElem?_eq_none (Nat.le_of_lt_succ h)]
  cases tokens[0]? <;> rfl

theorem Shows.ofLine? (h : row.Shows line) : ofLine? line = some row := by
  obtain ⟨⟨hbefore, -⟩, hname, hcolon, ⟨hafter, -⟩, hcounters, -, hbetween, hreceived, hsent⟩ := h
  rename_i before after counters received sent between more
  have hsolid : ∀ {gap : List Char}, IsGap gap → ':' ∉ gap := fun hgap hmem => nomatch hgap _ hmem
  have hnamed : ':' ∉ before ++ (row.device.toList ++ after) := by
    simp only [List.mem_append, not_or]
    exact ⟨hsolid hbefore, hcolon, hsolid hafter⟩
  have hninth : (received :: (between ++ sent :: more))[8]? = some sent := by
    rw [List.getElem?_cons_succ, List.getElem?_append_right (by omega), hbetween]
    rfl
  rw [ofLine?_append hnamed, (hname.trims hbefore hafter).trim, if_pos hname, hcounters.fields,
    ofTokens?, List.getElem?_cons_zero, hninth]
  dsimp only
  rw [Numeral.word64?_eq_some_iff.mpr hreceived, Numeral.word64?_eq_some_iff.mpr hsent,
    String.ofList_toList]
  rfl

theorem IsOther.ofLine? (h : IsOther line) : ofLine? line = none := by
  -- a name that is a word is the only word in front of the colon
  have hsingle : ∀ {name : List Char} {words : List (List Char)}, Spaced words name →
      words.length ≠ 1 → ¬ IsWord (Text.trim name) := by
    intro name words hname hlength hword
    have hwords := hname.fields.symm.trans hword.spaced_trim.fields
    rw [hwords] at hlength
    exact hlength rfl
  cases h with
  | noColon hcolon => exact ofLine?_of_not_mem hcolon
  | noName hcolon hname =>
      rw [ofLine?_append hcolon, if_neg (hsingle (.none hname) (by decide))]
  | severalWords hcolon hname =>
      rw [ofLine?_append hcolon, if_neg (hsingle hname (by simp))]
  | short hcolon hrest hshort =>
      rw [ofLine?_append hcolon, hrest.fields, ofTokens?_of_length hshort, ite_self]

theorem Shows.newline_not_mem (h : row.Shows line) : '\n' ∉ line := by
  obtain ⟨⟨-, hbefore⟩, hname, -, ⟨-, hafter⟩, -, hfeed, -, -, -⟩ := h
  simp only [List.mem_append, List.mem_cons, not_or]
  exact ⟨⟨hbefore, hname.not_mem rfl, hafter⟩, by decide, hfeed⟩

/-! ### A table -/

theorem TableText.parse (h : TableText rows text) : parse text = rows := by
  unfold InterfaceRow.parse
  induction h with
  | nil => rfl
  | row hrow hend _ ih =>
      rw [Text.filterMap_lines_ended rfl ofLine?_return hrow.newline_not_mem hend, hrow.ofLine?, ih]
      rfl
  | other hother hfeed hend _ ih =>
      rw [Text.filterMap_lines_ended rfl ofLine?_return hfeed hend, hother.ofLine?, ih]
      rfl

/-- The law of the table of interfaces. A table is read as its rows, and two texts that are put
together with a line feed are read one after the other. -/
theorem read_by_row : (∀ rows text, TableText rows text → parse text = rows) ∧
    ∀ a b, parse (a ++ '\n' :: b) = parse a ++ parse b :=
  ⟨fun _ _ => TableText.parse, Text.filterMap_lines_append rfl ofLine?_return⟩

/-- A heading without a colon; a row whose line ends with a return and a feed; a line with two words
for a name; a row behind a wide blank, with the largest counter right after the colon, a colon in a
token, a plus sign and zeros, and no line end. -/
def gluedTable : List Char := String.toList
  "x y\n lo : 10 2 3 4 5 6 7 8 9\r\na b:1\n\u3000e1:18446744073709551615 a: b c d e f g +007 x"

theorem read_by_row_glued :
    parse gluedTable = [⟨"lo", 10, 9⟩, ⟨"e1", 18446744073709551615, 7⟩] := by
  have htable : gluedTable = "x y".toList ++ '\n' ::
      (" ".toList ++ ("lo".toList ++ " ".toList) ++ ':' :: " 10 2 3 4 5 6 7 8 9".toList ++
        '\r' :: '\n' :: ("a b".toList ++ ':' :: "1".toList ++ '\n' ::
          ("\u3000".toList ++ ("e1".toList ++ []) ++
            ':' :: "18446744073709551615 a: b c d e f g +007 x".toList ++ []))) := by
    decide +kernel
  have hfirst : Spaced ("10".toList :: (["2", "3", "4", "5", "6", "7", "8"].map String.toList ++
      "9".toList :: [])) " 10 2 3 4 5 6 7 8 9".toList := by decide +kernel
  have hsecond : Spaced ("18446744073709551615".toList ::
      (["a:", "b", "c", "d", "e", "f", "g"].map String.toList ++ "+007".toList :: ["x".toList]))
        "18446744073709551615 a: b c d e f g +007 x".toList := by decide +kernel
  have hlo : Shows ⟨"lo", 10, 9⟩
      (" ".toList ++ ("lo".toList ++ " ".toList) ++ ':' :: " 10 2 3 4 5 6 7 8 9".toList) :=
    .intro (by decide) (by decide) (by decide) (by decide) hfirst (by decide) rfl
      (by decide +kernel) (by decide +kernel)
  have he1 : Shows ⟨"e1", 18446744073709551615, 7⟩ ("\u3000".toList ++ ("e1".toList ++ []) ++
      ':' :: "18446744073709551615 a: b c d e f g +007 x".toList) :=
    .intro (by decide) (by decide) (by decide) (by decide) hsecond (by decide) rfl
      (by decide +kernel) (by decide +kernel)
  have hwords : Spaced ["a".toList, "b".toList] "a b".toList := by decide +kernel
  rw [htable]
  exact read_by_row.1 _ _ (.other (.noColon (by decide)) (by decide) (.feed _)
    (.row hlo (.returnFeed _) (.other (.severalWords (by decide) hwords) (by decide) (.feed _)
      (.row he1 .stop .nil))))

end HostGauge.InterfaceRow
