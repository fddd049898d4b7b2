import HostGauge.Proofs.DeviceList.Record
import HostGauge.Proofs.Selection

/-!
The list of devices, by its entries. One entry without a name, or with a size that has no value,
spoils the list. Otherwise each device has the size of the last entry of its name whose size can be
used: an entry whose size cannot be used might as well be missing, and neither other members nor the
choice between a number and a string make a difference.
-/
namespace HostGauge

open Json (Document)
open Text (IsGap)

namespace DeviceList

/-- The document is an object with this list of entries and other members. -/
def Lists (d : Document) (entries : List Record) : Prop :=
  ∃ (record : Record) (items : List Document), record.IsObject d ∧
    record.AtMostOnce "blockdevices" ∧ record.lookup "blockdevices" = some (.array items) ∧
      List.Forall₂ (fun item e => Record.IsEntry e item) items entries

/-- An entry that can be read of a document is one that has a name and a size with a value, if it
has a size. -/
def Valid (e : Record) : Prop := (∃ name, e.HasName name) ∧ e.IsReadable

/-- A size and the same size in other words: an integer becomes a string of its digits with blanks
around. -/
inductive Respelled : Option Document → Option Document → Prop
  | same (size : Option Document) : Respelled size size
  | quoted {negative : Bool} {digits before after : List Char} {q : Json.WrittenString}
      (hdigits : Numeral.IsDigits digits) (hbefore : IsGap before) (hafter : IsGap after)
      (hq : q.text? = some (String.ofList
        (before ++ ((if negative then ['-'] else []) ++ digits ++ after)))) :
      Respelled (some (.number ⟨negative, digits, none, none⟩)) (some (.string q))

/-- Entries of one name and size, whatever other members they have. -/
structure Alike (e e' : Record) : Prop where
  name : ∀ name, e.HasName name ↔ e'.HasName name
  size : Respelled (e.lookup "log-sec") (e'.lookup "log-sec")

/-- Two texts are read as the same sizes, or both are refused, each in the words that the reader has
for it. -/
inductive SameResult (refusal : List Char → String) (text text' : List Char) : Prop
  | listed {sizes : Table UInt64} (h : parse refusal text = .ok sizes)
      (h' : parse refusal text' = .ok sizes)
  | refused (h : parse refusal text = .error (.unavailable (.malformedDeviceList (refusal text))))
      (h' : parse refusal text' = .error (.unavailable (.malformedDeviceList (refusal text'))))

variable {d : Document} {entries : List Record} {e e' : Record} {text : List Char}
  {refusal : List Char → String}

/-! ### From the document to the entries -/

theorem foldlM_add? {members : List (Json.WrittenString × Document)} {record : Record}
    (h : List.Forall₂ (fun m f => m.1.text? = some f.1 ∧ m.2 = f.2) members record)
    {found : Option (List DeviceEntry)} (honce : record.AtMostOnce "blockdevices")
    (hfound : "blockdevices" ∈ record.map Prod.fst → found = none) :
    members.foldlM add? found = record.known? entries? found "blockdevices" := by
  induction h generalizing found with
  | nil => rfl
  | @cons m f members record hm _ ih =>
      obtain ⟨q, d⟩ := m
      obtain ⟨key, d'⟩ := f
      obtain ⟨hq, rfl⟩ : q.text? = some key ∧ d = d' := hm
      rw [List.foldlM_cons]
      by_cases hkey : key = "blockdevices"
      · subst hkey
        have hrest := honce.not_mem
        have hadd : add? found (q, d) = (entries? d).map some := by
          unfold add?
          rw [hq, hfound List.mem_cons_self]
          rfl
        rw [hadd, Record.known?_cons_self]
        cases entries? d with
        | none => rfl
        | some list =>
            have hstep := @ih (some list) honce.tail (fun hmem => absurd hmem hrest)
            rw [Record.known?_of_not_mem _ _ hrest] at hstep
            exact hstep
      · have hadd : add? found (q, d) = some found := by
          unfold add?
          rw [hq]
          split
          next heq => cases heq
          next heq => exact absurd (Option.some.inj heq) hkey
          next => rfl
        rw [hadd, Record.known?_cons_of_ne _ _ hkey]
        exact ih honce.tail fun hmem => hfound (List.mem_cons_of_mem _ hmem)

theorem mapM_eq {α β : Type} (f : α → Option β) (as : List α) :
    as.mapM f = if as.all (fun a => (f a).isSome) then some (as.filterMap f) else none := by
  induction as with
  | nil => rfl
  | cons a as ih =>
      rw [List.mapM_cons, ih, List.all_cons]
      cases ha : f a with
      | none => rfl
      | some b =>
          rw [Option.isSome_some, Bool.true_and, List.filterMap_cons_some ha]
          split <;> rfl

theorem map_ofDocument? (h : Lists d entries) :
    (ofDocument? d).map (·.map fun e => (e.name, e.usableSize?)) =
      entries.mapM Record.reading? := by
  obtain ⟨record, items, ⟨members, rfl, hmembers⟩, honce, hlist, hitems⟩ := h
  rw [ofDocument?, foldlM_add? hmembers honce (fun _ => rfl), Record.known?, hlist]
  dsimp only [entries?]
  rw [Option.map_map, Option.map_map]
  clear hlist honce hmembers
  induction hitems with
  | nil => rfl
  | @cons item e items entries hitem _ ih =>
      rw [List.mapM_cons, List.mapM_cons, ← ih, ← Record.map_ofDocument? hitem]
      cases DeviceEntry.ofDocument? item with
      | none => rfl
      | some device => cases items.mapM DeviceEntry.ofDocument? <;> rfl

/-- What a text of a list is read as. -/
theorem parse_of_lists (refusal : List Char → String) (htext : Document.parse? text = some d)
    (h : Lists d entries) :
    parse refusal text = if entries.all (·.reading?.isSome) then
      .ok (Table.ofList (entries.filterMap Record.sized?))
    else .error (.unavailable (.malformedDeviceList (refusal text))) := by
  have hmap := map_ofDocument? h
  rw [mapM_eq] at hmap
  rw [parse, htext, Option.bind_some]
  cases hdocument : ofDocument? d with
  | none =>
      rw [hdocument] at hmap
      split at hmap
      case isTrue => cases hmap
      case isFalse hall => rw [if_neg hall]
  | some devices =>
      rw [hdocument] at hmap
      split at hmap
      case isTrue hall =>
        have hsized : entries.filterMap Record.sized? =
            devices.filterMap fun e => e.usableSize?.map fun n => (e.name, n) := by
          have hreadings := Option.some.inj hmap
          unfold Record.sized?
          rw [← List.filterMap_filterMap, ← hreadings, List.filterMap_map]
          rfl
        rw [if_pos hall, hsized]
        rfl
      case isFalse => cases hmap

theorem all_isSome_iff : entries.all (·.reading?.isSome) ↔ ∀ e ∈ entries, Valid e := by
  rw [List.all_eq_true]
  refine forall₂_congr fun e _ => ?_
  rw [← Option.ne_none_iff_isSome, ne_eq, Record.reading?_eq_none_iff, Valid]
  push Not
  rfl

theorem parse_of_valid (htext : Document.parse? text = some d) (h : Lists d entries)
    (hvalid : ∀ e ∈ entries, Valid e) :
    parse refusal text = .ok (Table.ofList (entries.filterMap Record.sized?)) := by
  rw [parse_of_lists refusal htext h, if_pos (all_isSome_iff.mpr hvalid)]

theorem parse_of_not_valid (htext : Document.parse? text = some d) (h : Lists d entries)
    (he : e ∈ entries) (hvalid : ¬ Valid e) :
    parse refusal text = .error (.unavailable (.malformedDeviceList (refusal text))) := by
  rw [parse_of_lists refusal htext h, if_neg]
  intro hall
  exact hvalid (all_isSome_iff.mp hall e he)

/-- The result depends on whether all entries are valid, and on the sizes that can be used. -/
theorem sameResult_of_lists {d' : Document} {entries' : List Record} {text' : List Char}
    (htext : Document.parse? text = some d) (hd : Lists d entries)
    (htext' : Document.parse? text' = some d') (hd' : Lists d' entries')
    (hall : entries.all (·.reading?.isSome) = entries'.all (·.reading?.isSome))
    (hsized : entries.filterMap Record.sized? = entries'.filterMap Record.sized?) :
    SameResult refusal text text' := by
  have hparse := parse_of_lists refusal htext hd
  have hparse' := parse_of_lists refusal htext' hd'
  rw [← hall, ← hsized] at hparse'
  split at hparse
  case isTrue hvalid =>
    rw [if_pos hvalid] at hparse'
    exact .listed hparse hparse'
  case isFalse hinvalid =>
    rw [if_neg hinvalid] at hparse'
    exact .refused hparse hparse'

/-! ### The same size in other words -/

theorem isWord_of_isDigits {digits : List Char} (h : Numeral.IsDigits digits) (negative : Bool) :
    Text.IsWord ((if negative then ['-'] else []) ++ digits) := by
  have hsolid : ∀ c ∈ digits, Text.isBlank c = false := fun c hc =>
    Text.isBlank_of_isDigit (h.2 c hc)
  cases negative with
  | true =>
      refine ⟨List.cons_ne_nil _ _, ?_⟩
      intro c hc
      rcases List.mem_cons.mp hc with rfl | hc
      · rfl
      · exact hsolid c hc
  | false => exact ⟨h.1, hsolid⟩

theorem isNumeral_signed_iff {digits : List Char} (h : Numeral.IsDigits digits) {negative : Bool}
    {n : UInt64} : Numeral.IsNumeral ((if negative then ['-'] else []) ++ digits) n ↔
      negative = false ∧ Numeral.value digits = n.toNat := by
  cases negative with
  | true =>
      refine iff_of_false ?_ (fun h => nomatch h.1)
      rintro (hdenotes | _)
      exact absurd (hdenotes.1.2 '-' List.mem_cons_self) (by decide)
  | false =>
      constructor
      · intro hnumeral
        have hnumeral' : Numeral.IsNumeral digits n := hnumeral
        cases hnumeral' with
        | bare hdenotes => exact ⟨rfl, hdenotes.2⟩
        | plus _ => exact absurd (h.2 '+' List.mem_cons_self) (by decide)
      · rintro ⟨-, hvalue⟩
        exact .bare ⟨h, hvalue⟩

theorem isUsable_quoted {digits before after : List Char} {negative : Bool}
    {q : Json.WrittenString} (hdigits : Numeral.IsDigits digits) (hbefore : IsGap before)
    (hafter : IsGap after)
    (hq : q.text? = some (String.ofList
      (before ++ ((if negative then ['-'] else []) ++ digits ++ after)))) {n : UInt64} :
    IsUsable (.number ⟨negative, digits, none, none⟩) n ↔ IsUsable (.string q) n := by
  have htrims := (isWord_of_isDigits hdigits negative).trims hbefore hafter
  constructor
  · rintro (⟨hvalue⟩ | _)
    refine .text hq ?_ ((isNumeral_signed_iff hdigits).mpr ⟨rfl, hvalue⟩)
    rw [String.toList_ofList]
    exact htrims
  · rintro (_ | ⟨hq', htrim, hnumeral⟩)
    rw [hq] at hq'
    cases hq'
    rw [String.toList_ofList] at htrim
    rw [← htrim.trim, htrims.trim] at hnumeral
    obtain ⟨rfl, hvalue⟩ := (isNumeral_signed_iff hdigits).mp hnumeral
    exact .digits hvalue

theorem Alike.hasSize_iff (h : Alike e e') (n : UInt64) : e.HasSize n ↔ e'.HasSize n := by
  have hsize := h.size
  unfold Record.HasSize
  generalize e.lookup "log-sec" = size at hsize
  generalize e'.lookup "log-sec" = size' at hsize
  cases hsize with
  | same => exact Iff.rfl
  | quoted hdigits hbefore hafter hq => simp [isUsable_quoted hdigits hbefore hafter hq]

theorem Alike.isReadable (h : Alike e e') (he : e.IsReadable) : e'.IsReadable := by
  have hsize := h.size
  unfold Record.IsReadable at he ⊢
  generalize e.lookup "log-sec" = size at hsize he
  generalize e'.lookup "log-sec" = size' at hsize
  cases hsize with
  | same => exact he
  | quoted hdigits hbefore hafter hq =>
      intro d hd
      cases hd
      exact ⟨_, by rw [Document.value?, hq, Option.map_some]⟩

theorem Alike.reading?_eq (h : Alike e e') (he : e.IsReadable) : e.reading? = e'.reading? := by
  apply Option.ext
  rintro ⟨name, size⟩
  rw [Record.reading?_eq_some_iff, Record.reading?_eq_some_iff]
  simp only [h.name name, h.hasSize_iff, he, h.isReadable he]

theorem parse_alike {d' : Document} {entries' : List Record} {text' : List Char}
    (htext : Document.parse? text = some d) (hd : Lists d entries)
    (htext' : Document.parse? text' = some d') (hd' : Lists d' entries')
    (h : List.Forall₂ Alike entries entries') (hreadable : ∀ e ∈ entries, e.IsReadable) :
    SameResult refusal text text' := by
  have hreadings : entries.map Record.reading? = entries'.map Record.reading? := by
    clear hd hd'
    induction h with
    | nil => rfl
    | cons he _ ih =>
        obtain ⟨hhead, htail⟩ := List.forall_mem_cons.mp hreadable
        rw [List.map_cons, List.map_cons, he.reading?_eq hhead, ih htail]
  have hall : ∀ es : List Record, es.all (·.reading?.isSome) =
      (es.map Record.reading?).all Option.isSome := by
    intro es
    rw [List.all_map]
    rfl
  have hsized : ∀ es : List Record, es.filterMap Record.sized? =
      (es.map Record.reading?).filterMap fun r => r.bind fun r => r.2.map fun n => (r.1, n) := by
    intro es
    rw [List.filterMap_map]
    rfl
  refine sameResult_of_lists htext hd htext' hd' ?_ ?_
  · rw [hall, hall, hreadings]
  · rw [hsized, hsized, hreadings]

/-- An entry whose size cannot be used might as well be missing. -/
theorem parse_of_unusable {d' : Document} {before after : List Record} {text' : List Char}
    (htext : Document.parse? text = some d) (hd : Lists d (before ++ e :: after))
    (htext' : Document.parse? text' = some d') (hd' : Lists d' (before ++ after))
    (he : Valid e) (hsize : ∀ n, ¬ e.HasSize n) : SameResult refusal text text' := by
  have hall : (e :: after).all (·.reading?.isSome) = after.all (·.reading?.isSome) := by
    have hread := all_isSome_iff.mpr (List.forall_mem_singleton.mpr he)
    rw [List.all_cons, List.all_nil, Bool.and_true] at hread
    rw [List.all_cons, hread, Bool.true_and]
  have hnone : e.sized? = none := by
    rw [Option.eq_none_iff_forall_ne_some]
    rintro ⟨name, n⟩ hsized
    exact hsize n (Record.sized?_eq_some_iff.mp hsized).2
  refine sameResult_of_lists htext hd htext' hd' ?_ ?_
  · rw [List.all_append, List.all_append, hall]
  · rw [List.filterMap_append, List.filterMap_append, List.filterMap_cons_none hnone]

theorem parse_of_unlisted {record : Record} (htext : Document.parse? text = some d)
    (hrecord : record.IsObject d) (h : record.lookup "blockdevices" = none) :
    parse refusal text = .ok {} := by
  obtain ⟨members, rfl, hmembers⟩ := hrecord
  have hnone : "blockdevices" ∉ record.map Prod.fst := by
    intro hmem
    obtain ⟨f, hf, hname⟩ := List.mem_map.mp hmem
    exact bne_iff_ne.mp (List.lookup_eq_none_iff.mp h f hf) hname.symm
  have honce : record.AtMostOnce "blockdevices" := by
    rw [Record.AtMostOnce, List.count_eq_zero.mpr hnone]
    exact Nat.zero_le 1
  rw [parse, htext, Option.bind_some, ofDocument?, foldlM_add? hmembers honce (fun _ => rfl),
    Record.known?_of_not_mem _ _ hnone]
  rfl

/-- The law of the list of devices, for any text of an object with a list whose entries are objects.
An entry without a name, or with a size that has no value, makes the text malformed, and the fault
is in the reader's words about it. Without such entries each device has the size of the last entry
of its name whose size can be used. An entry whose size cannot be used is as good as none. Texts of
entries that are alike have the same result, and an object without a list is an empty one. -/
theorem listed_by_entry (refusal : List Char → String) :
    (∀ text d entries, Document.parse? text = some d → Lists d entries →
      ((∃ e ∈ entries, ∀ name, ¬ e.HasName name) →
        parse refusal text = .error (.unavailable (.malformedDeviceList (refusal text)))) ∧
      ((∃ e ∈ entries, ¬ e.IsReadable) →
        parse refusal text = .error (.unavailable (.malformedDeviceList (refusal text)))) ∧
      ((∀ e ∈ entries, (∃ name, e.HasName name) ∧ e.IsReadable) →
        ∃ sizes, parse refusal text = .ok sizes ∧ ∀ device n, sizes.find? device = some n ↔
          IsLast (fun e n => Record.HasName e device ∧ Record.HasSize e n) entries n)) ∧
    (∀ text text' d d' before e after, Document.parse? text = some d →
      Lists d (before ++ e :: after) → Document.parse? text' = some d' →
        Lists d' (before ++ after) → (∃ name, e.HasName name) ∧ e.IsReadable →
          (∀ n, ¬ e.HasSize n) → SameResult refusal text text') ∧
    (∀ text text' d d' entries entries', Document.parse? text = some d → Lists d entries →
      Document.parse? text' = some d' → Lists d' entries' → List.Forall₂ Alike entries entries' →
        (∀ e ∈ entries, e.IsReadable) → SameResult refusal text text') ∧
    ∀ text d (record : Record), Document.parse? text = some d → record.IsObject d →
      record.lookup "blockdevices" = none → parse refusal text = .ok {} := by
  refine ⟨?_, ?_, ?_, ?_⟩
  · intro text d entries htext hd
    refine ⟨?_, ?_, ?_⟩
    · rintro ⟨e, he, hnameless⟩
      refine parse_of_not_valid htext hd he ?_
      rintro ⟨⟨name, hname⟩, -⟩
      exact hnameless name hname
    · rintro ⟨e, he, hunreadable⟩
      exact parse_of_not_valid htext hd he fun hvalid => hunreadable hvalid.2
    · intro hvalid
      refine ⟨_, parse_of_valid htext hd hvalid, ?_⟩
      intro device n
      rw [Table.find?_ofList_filterMap]
      simp only [Record.sized?_eq_some_iff]
  · intro text text' d d' before e after htext hd htext' hd' he hsize
    exact parse_of_unusable htext hd htext' hd' he hsize
  · intro text text' d d' entries entries' htext hd htext' hd' halike hreadable
    exact parse_alike htext hd htext' hd' halike hreadable
  · intro text d record htext hrecord hnone
    exact parse_of_unlisted htext hrecord hnone

def plainString (s : String) : Json.WrittenString := s.toList.map .plain

theorem text?_plainString (s : String) : (plainString s).text? = some s := by
  have hmeans : ∀ chars : List Char, Json.WrittenString.Means (chars.map .plain) chars := by
    intro chars
    induction chars with
    | nil => exact .nil
    | cons c chars ih => exact .plain ih
  exact Json.WrittenString.text?_of_means (hmeans s.toList)

/-- An object of these members. -/
def document (record : Record) : Document :=
  .object (record.map fun f => (plainString f.1, f.2))

theorem isObject_document (record : Record) : record.IsObject (document record) := by
  refine ⟨_, rfl, ?_⟩
  rw [List.forall₂_map_left_iff, List.forall₂_same]
  intro f _
  exact ⟨text?_plainString f.1, rfl⟩

/-- An object of a list of entries, with another member after it. -/
def listDocument (entries : List Record) : Document :=
  document [("blockdevices", .array (entries.map document)), ("x", .null)]

theorem lists_listDocument (h : ∀ e ∈ entries, e.AtMostOnce "name" ∧ e.AtMostOnce "log-sec") :
    Lists (listDocument entries) entries := by
  have honce : ["blockdevices", "x"].count "blockdevices" ≤ 1 := by decide
  refine ⟨_, _, isObject_document _, honce, rfl, ?_⟩
  rw [List.forall₂_map_left_iff, List.forall₂_same]
  intro e he
  exact ⟨isObject_document e, (h e he).1, (h e he).2⟩

theorem parse?_of_scan {text : String} (h : Json.scan text.toList = some d.tokens) :
    Document.parse? text.toList = some d := by
  rw [Document.parse?, h, Option.bind_some, Document.ofTokens?_tokens]

/-- A device listed three times, first with a number, then with a padded string, and last with a
number of more than 64 bits; the same list without the last entry, and one with a padded string in
place of the first number and another member; an entry without a name; and no list at all. -/
theorem listed_by_entry_mixed :
    let refusal (_ : List Char) : String := "missing field `name` at line 1 column 31"
    let text (entries : String) :=
      ("\x7b\"blockdevices\": [" ++ entries ++ "], \"x\": null\x7d").toList
    let first := "\x7b\"name\":\"a\",\"log-sec\":512\x7d"
    let padded := "\x7b\"name\":\"a\",\"log-sec\":\" 512  \",\"z\":[]\x7d"
    let second := ", \x7b\"log-sec\":\" 4096 \",\"name\":\"a\"\x7d"
    let large := ", \x7b\"name\":\"a\",\"log-sec\":18446744073709551616\x7d"
    (∃ sizes, parse refusal (text (first ++ second ++ large)) = .ok sizes ∧
        sizes.find? "a" = some 4096) ∧
      SameResult refusal (text (first ++ second ++ large)) (text (first ++ second)) ∧
      SameResult refusal (text (first ++ second)) (text (padded ++ second)) ∧
      parse refusal (text "\x7b\"log-sec\":1\x7d") = .error (.unavailable
        (.malformedDeviceList "missing field `name` at line 1 column 31")) ∧
      parse refusal "\x7b\x7d".toList = .ok {} := by
  intro refusal text first padded second large
  let a : Record := [("name", .string (plainString "a")),
    ("log-sec", .number ⟨false, "512".toList, none, none⟩)]
  let a' : Record := [("name", .string (plainString "a")),
    ("log-sec", .string (plainString " 512  ")), ("z", .array [])]
  let b : Record := [("log-sec", .string (plainString " 4096 ")),
    ("name", .string (plainString "a"))]
  let c : Record := [("name", .string (plainString "a")),
    ("log-sec", .number ⟨false, "18446744073709551616".toList, none, none⟩)]
  let e : Record := [("log-sec", .number ⟨false, "1".toList, none, none⟩)]
  have habc : Document.parse? (text (first ++ second ++ large)) =
      some (listDocument [a, b, c]) := parse?_of_scan (by decide +kernel)
  have hab : Document.parse? (text (first ++ second)) = some (listDocument [a, b]) :=
    parse?_of_scan (by decide +kernel)
  have hab' : Document.parse? (text (padded ++ second)) = some (listDocument [a', b]) :=
    parse?_of_scan (by decide +kernel)
  have he : Document.parse? (text "\x7b\"log-sec\":1\x7d") = some (listDocument [e]) :=
    parse?_of_scan (by decide +kernel)
  have hnone : Document.parse? "\x7b\x7d".toList = some (document []) :=
    parse?_of_scan (by decide +kernel)
  have hvalid : ∀ r ∈ [a, b, c], Valid r := all_isSome_iff.mp (by decide +kernel)
  have hreadable : ∀ r ∈ [a, b], r.IsReadable := by
    intro r hr
    exact (hvalid r (by simp at hr ⊢; tauto)).2
  have hlarge : ∀ n, ¬ c.HasSize n := by
    intro n hn
    have hnone : c.sized? = none := by decide +kernel
    have hsome := Record.sized?_eq_some_iff.mpr ⟨⟨_, rfl, text?_plainString "a"⟩, hn⟩
    rw [hnone] at hsome
    cases hsome
  have hsecond : b.HasName "a" ∧ b.HasSize 4096 :=
    Record.sized?_eq_some_iff.mp (by decide +kernel)
  have hlast : IsLast (fun e n => Record.HasName e "a" ∧ Record.HasSize e n) [a, b, c] 4096 := by
    refine ⟨[a], b, [c], rfl, hsecond, ?_⟩
    intro other hother n hn
    rw [List.mem_singleton.mp hother] at hn
    exact hlarge n hn.2
  have hpadded : Alike a a' := by
    refine ⟨fun name => Iff.rfl, ?_⟩
    exact @Respelled.quoted false "512".toList [' '] [' ', ' '] (plainString " 512  ")
      (by decide) (by decide) (by decide) (by decide +kernel)
  have hnameless : ∃ r ∈ [e], ∀ name, ¬ r.HasName name := by
    refine ⟨e, List.mem_singleton_self e, ?_⟩
    rintro name ⟨q, hq, -⟩
    cases hq
  obtain ⟨hlist, hunusable, halike, hunlisted⟩ := listed_by_entry refusal
  refine ⟨?_, ?_, ?_, ?_, ?_⟩
  · obtain ⟨sizes, hparse, hsizes⟩ :=
      (hlist _ _ [a, b, c] habc (lists_listDocument (by decide))).2.2 hvalid
    exact ⟨sizes, hparse, (hsizes "a" 4096).mpr hlast⟩
  · exact hunusable _ _ _ _ [a, b] c [] habc (lists_listDocument (by decide)) hab
      (lists_listDocument (by decide)) (hvalid c (by simp)) hlarge
  · exact halike _ _ _ _ [a, b] [a', b] hab (lists_listDocument (by decide)) hab'
      (lists_listDocument (by decide))
      (.cons hpadded (.cons ⟨fun name => Iff.rfl, .same _⟩ .nil)) hreadable
  · exact (hlist _ _ [e] he (lists_listDocument (by decide))).1 hnameless
  · exact hunlisted _ _ [] hnone (isObject_document []) rfl

end DeviceList

end HostGauge
