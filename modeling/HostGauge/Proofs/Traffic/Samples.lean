import HostGauge.Proofs.Collector.Confinement
import HostGauge.Proofs.Host.Tree
import HostGauge.Proofs.Selection
import HostGauge.Proofs.Traffic.Records
import HostGauge.Proofs.Traffic.Rows

/-!
The samples of a host, joined from three sources. The rows say which interfaces there are and what
they have counted, the routes which of them are up, and the directory of virtual interfaces which of
them are left out. Only the rows can make a sample fail, and the routes decide about nothing but
whether an interface is up.
-/
namespace HostGauge

open Text (IsWord Spaced Trims)

/-- A field is read as what it denotes, and as zero where it denotes nothing. -/
def Numeral.IsRead (field : List Char) (w : UInt64) : Prop :=
  IsNumeral field w ∨ (∀ v, ¬ IsNumeral field v) ∧ w = 0

theorem Numeral.isRead_iff {field : List Char} {w : UInt64} :
    IsRead field w ↔ (word64? field).getD 0 = w := by
  unfold IsRead
  simp only [← word64?_eq_some_iff]
  cases word64? field with
  | none => simp [eq_comm]
  | some v => simp

namespace InterfaceRow

/-- A line with a row: a name that is one word, a colon, and at least nine tokens. -/
inductive IsRow (row : InterfaceRow) : List Char → Prop
  | intro {name counters received sent : List Char} {between more : List (List Char)}
      (hcolon : ':' ∉ name) (hname : Trims name row.device.toList)
      (hword : IsWord row.device.toList)
      (hcounters : Spaced (received :: (between ++ sent :: more)) counters)
      (hbetween : between.length = 7) (hreceived : Numeral.IsRead received row.received)
      (hsent : Numeral.IsRead sent row.sent) : IsRow row (name ++ ':' :: counters)

/-- The last row of an interface. -/
def IsLastRow (device : String) (text : List Char) (row : InterfaceRow) : Prop :=
  IsLast (fun line row => row.IsRow line ∧ row.device = device) (Text.lines text) row

variable {row : InterfaceRow} {line text : List Char} {device : String}

theorem ofTokens?_eq_some_iff {name : List Char} {tokens : List (List Char)} :
    ofTokens? name tokens = some row ↔ row.device.toList = name ∧
      ∃ received between sent more, tokens = received :: (between ++ sent :: more) ∧
        between.length = 7 ∧ Numeral.IsRead received row.received ∧
          Numeral.IsRead sent row.sent := by
  simp only [Numeral.isRead_iff]
  constructor
  · intro h
    unfold ofTokens? at h
    split at h
    case h_1 received sent hreceived hsent =>
      cases h
      cases tokens with
      | nil => cases hreceived
      | cons first tokens =>
          cases hreceived
          obtain ⟨hlength, rfl⟩ := List.getElem?_eq_some_iff.mp (List.getElem?_cons_succ ▸ hsent)
          have hsplit : tokens = tokens.take 7 ++ tokens[7] :: tokens.drop 8 := by
            rw [← List.drop_eq_getElem_cons hlength, List.take_append_drop]
          refine ⟨String.toList_ofList, received, tokens.take 7, tokens[7], tokens.drop 8, ?_, ?_,
            rfl, rfl⟩
          · rw [← hsplit]
          · rw [List.length_take, Nat.min_eq_left hlength.le]
    case h_2 => cases h
  · rintro ⟨hname, received, between, sent, more, rfl, hbetween, hreceived, hsent⟩
    have hninth : (received :: (between ++ sent :: more))[8]? = some sent := by
      rw [List.getElem?_cons_succ, List.getElem?_append_right (by omega), hbetween]
      rfl
    rw [ofTokens?, List.getElem?_cons_zero, hninth]
    dsimp only
    rw [hreceived, hsent, ← hname, String.ofList_toList]

/-- A line is read as a row exactly if it has one. -/
theorem ofLine?_eq_some_iff : ofLine? line = some row ↔ row.IsRow line := by
  constructor
  · intro h
    by_cases hcolon : ':' ∈ line
    · obtain ⟨name, counters, rfl, hname⟩ := List.eq_append_cons_of_mem hcolon
      rw [ofLine?_append hname, Option.ite_none_right_eq_some, ofTokens?_eq_some_iff] at h
      obtain ⟨hword, hdevice, received, between, sent, more, hfields, hbetween, hreceived, hsent⟩ :=
        h
      rw [← hdevice] at hword
      exact .intro hname (Text.trim_eq_iff.mp hdevice.symm) hword (Text.fields_eq_iff.mp hfields)
        hbetween hreceived hsent
    · rw [ofLine?_of_not_mem hcolon] at h
      cases h
  · intro h
    obtain ⟨hcolon, hname, hword, hcounters, hbetween, hreceived, hsent⟩ := h
    rw [ofLine?_append hcolon, hname.trim, if_pos hword, hcounters.fields, ofTokens?_eq_some_iff]
    exact ⟨rfl, _, _, _, _, rfl, hbetween, hreceived, hsent⟩

theorem isLastRow_iff :
    IsLastRow device text row ↔ (parse text).reverse.find? (·.device = device) = some row := by
  have hrow : ∀ line row, (ofLine? line).filter (·.device = device) = some row ↔
      row.IsRow line ∧ row.device = device := by
    intro line row
    rw [Option.filter_eq_some_iff, ofLine?_eq_some_iff, decide_eq_true_iff]
  rw [IsLastRow, isLast_iff hrow, ← List.filter_filterMap, parse, ← List.head?_filter,
    List.filter_reverse, List.head?_reverse]

end InterfaceRow

/-- A line after the heading whose first field is the interface. -/
def Routes.Lists (device : String) (text : List Char) : Prop :=
  ∃ heading later line more, Text.lines text = heading :: later ∧ line ∈ later ∧
    Spaced (device.toList :: more) line

/-- The interface holds a route; none does where the routes cannot be read. -/
def Host.HoldsRoute (host : Host) (root device : String) : Prop :=
  ∃ text, host.readText (Path.joinAll root ["proc", "net", "route"]) = .ok text ∧
    Routes.Lists device text

theorem Routes.mem_parse_iff {device : String} {text : List Char} :
    device ∈ parse text ↔ Lists device text := by
  unfold parse
  rw [List.mem_filterMap]
  constructor
  · rintro ⟨line, hline, hdevice⟩
    obtain ⟨field, hfield, rfl⟩ := Option.map_eq_some_iff.mp hdevice
    obtain ⟨more, hfields⟩ := List.head?_eq_some_iff.mp hfield
    cases hlines : Text.lines text with
    | nil =>
        rw [hlines] at hline
        cases hline
    | cons heading later =>
        rw [hlines] at hline
        refine ⟨heading, later, line, more, hlines, hline, ?_⟩
        rw [String.toList_ofList]
        exact Text.fields_eq_iff.mp hfields
  · rintro ⟨heading, later, line, more, hlines, hline, hfields⟩
    refine ⟨line, ?_, ?_⟩
    · rw [hlines]
      exact hline
    · rw [hfields.fields, List.head?_cons, Option.map_some, String.ofList_toList]

theorem Routes.mem_read_iff {host : Host} {root device : String} :
    device ∈ read host root ↔ host.HoldsRoute root device := by
  unfold read Host.HoldsRoute
  cases host.readText (Path.joinAll root ["proc", "net", "route"]) with
  | error cause => simp
  | ok text => simp [mem_parse_iff]

/-- The directory of virtual interfaces lists the name. -/
def Host.ListsVirtual (host : Host) (root device : String) : Prop :=
  ∃ names, host.list (InterfaceSample.virtualDirectory root) = .ok names ∧ device ∈ names

namespace InterfaceSample

/-- A sample shows a row as it was taken at this moment. -/
structure Shows (s : InterfaceSample) (host : Host) (root : String) (now : Moment)
    (row : InterfaceRow) : Prop where
  device : s.device = row.device
  time : s.time = now
  up : s.up ↔ host.HoldsRoute root row.device
  received : s.received = row.received
  sent : s.sent = row.sent

def down (s : InterfaceSample) : InterfaceSample := { s with up := false }

variable {host : Host} {root : String} {now : Moment} {text : List Char}

theorem shows_iff {s : InterfaceSample} {row : InterfaceRow} :
    s.Shows host root now row ↔
      s = ⟨row.device, now, row.device ∈ Routes.read host root, row.received, row.sent⟩ := by
  constructor
  · rintro ⟨hdevice, htime, hup, hreceived, hsent⟩
    have hup' : s.up = decide (row.device ∈ Routes.read host root) := by
      rw [Bool.eq_iff_iff, hup, decide_eq_true_iff, Routes.mem_read_iff]
    cases s
    simp only [mk.injEq]
    exact ⟨hdevice, htime, hup', hreceived, hsent⟩
  · rintro rfl
    exact ⟨rfl, rfl, by simp [Routes.mem_read_iff], rfl, rfl⟩

theorem readAll_of_ok (h : host.readText (Path.joinAll root ["proc", "net", "dev"]) = .ok text)
    (now : Moment) : readAll host root now =
      .ok (ofRows (fun device => host.isPresent (virtualPath root device)) (Routes.read host root)
        now (InterfaceRow.parse text)) := by
  rw [readAll, h]

theorem readAll_of_error {cause : FileFault}
    (h : host.readText (Path.joinAll root ["proc", "net", "dev"]) = .error cause) (now : Moment) :
    readAll host root now = .error (.file cause) := by
  rw [readAll, h]

theorem find?_ofRows_iff {device : String} {s : InterfaceSample} :
    (ofRows (fun device => host.isPresent (virtualPath root device)) (Routes.read host root) now
      (InterfaceRow.parse text)).find? device = some s ↔
    host.isPresent (virtualPath root device) = false ∧
      ∃ row, InterfaceRow.IsLastRow device text row ∧ s.Shows host root now row := by
  rw [find?_ofRows]
  split
  case isTrue hvirtual => simp [hvirtual]
  case isFalse hvirtual =>
    rw [Option.map_eq_some_iff]
    simp only [hvirtual, true_and, InterfaceRow.isLastRow_iff, shows_iff]
    refine exists_congr fun row => and_congr_right fun hrow => ?_
    have hdevice : row.device = device := by simpa using List.find?_some hrow
    rw [hdevice]
    exact eq_comm

theorem map_down_ofRows (isVirtual : String → Bool) (up : List String) (now : Moment)
    (rows : List InterfaceRow) :
    (ofRows isVirtual up now rows).map down = ofRows isVirtual [] now rows := by
  rw [ofRows, ofRows, Table.map_ofList, List.map_map]
  rfl

/-- The routes make no difference to what the samples say besides which interfaces are up. -/
theorem map_down_readAll {other : Host}
    (hrows : other.readText (Path.joinAll root ["proc", "net", "dev"]) =
      host.readText (Path.joinAll root ["proc", "net", "dev"]))
    (hvirtual : other.isPresent = host.isPresent) (now : Moment) :
    (readAll other root now).map (·.map down) = (readAll host root now).map (·.map down) := by
  cases hread : host.readText (Path.joinAll root ["proc", "net", "dev"]) with
  | error cause =>
      rw [hread] at hrows
      rw [readAll_of_error hread, readAll_of_error hrows]
  | ok text =>
      rw [hread] at hrows
      rw [readAll_of_ok hread, readAll_of_ok hrows, Except.map, Except.map, map_down_ofRows,
        map_down_ofRows, hvirtual]

theorem virtualDirectory_ne_empty (root : String) : virtualDirectory root ≠ "" := by
  have hrelative : Path.isAbsolute "net" = false := by decide
  have hlength := (Path.length_join (Path.joinAll root ["sys", "devices", "virtual"]) hrelative).1
  intro hempty
  simp only [virtualDirectory, Path.joinAll, List.foldl_cons, List.foldl_nil] at hempty hlength
  rw [hempty] at hlength
  exact absurd hlength (by simp)

theorem isPresent_virtualPath_iff (t : Tree) {device : String} (hname : Tree.IsName device)
    (hlong : (virtualPath root device).utf8ByteSize ≤ Tree.longestPath) :
    t.host.isPresent (virtualPath root device) ↔ t.host.ListsVirtual root device := by
  unfold virtualPath at hlong ⊢
  exact Tree.isPresent_join_iff (virtualDirectory_ne_empty root) hname hlong

/-- A sample fails exactly where the rows cannot be read, and then with what was wrong with their
file. Where they can be, there is a sample of each interface that has a row and no presence at its
virtual path, with the counters of its last row, and up exactly if it holds a route. Routes that
cannot be read leave every interface down, and no routes make any other difference. Behind a plain
name there is something at the virtual path exactly if the directory of virtual interfaces lists
the name. -/
theorem sampled_by_row (root : String) (now : Moment) :
    let rows := Path.joinAll root ["proc", "net", "dev"]
    let routes := Path.joinAll root ["proc", "net", "route"]
    (∀ host fault, readAll host root now = .error fault ↔
      ∃ cause, host.readText rows = .error cause ∧ fault = .file cause) ∧
    (∀ host text, host.readText rows = .ok text → ∃ samples, readAll host root now = .ok samples ∧
      (∀ device s, samples.find? device = some s ↔
        host.isPresent (virtualPath root device) = false ∧
          ∃ row, InterfaceRow.IsLastRow device text row ∧ s.Shows host root now row) ∧
      ∀ cause, host.readText routes = .error cause → samples.map down = samples) ∧
    (∀ host other : Host, other.readText rows = host.readText rows →
      other.isPresent = host.isPresent →
        (readAll other root now).map (·.map down) = (readAll host root now).map (·.map down)) ∧
    ∀ (t : Tree) text samples, t.host.readText rows = .ok text →
      readAll t.host root now = .ok samples → ∀ device, Tree.IsName device →
        (virtualPath root device).utf8ByteSize ≤ Tree.longestPath →
          ∀ s, samples.find? device = some s ↔ ¬ t.host.ListsVirtual root device ∧
            ∃ row, InterfaceRow.IsLastRow device text row ∧ s.Shows t.host root now row := by
  intro rows routes
  refine ⟨?_, ?_, ?_, ?_⟩
  · intro host fault
    cases hread : host.readText rows with
    | error cause =>
        rw [readAll_of_error hread]
        simp [eq_comm]
    | ok text =>
        rw [readAll_of_ok hread]
        simp
  · intro host text hread
    refine ⟨_, readAll_of_ok hread now, fun device s => find?_ofRows_iff, ?_⟩
    intro cause hroutes
    have hnone : Routes.read host root = [] := by
      unfold Routes.read
      rw [hroutes]
    rw [map_down_ofRows, hnone]
  · intro host other hrows hvirtual
    exact map_down_readAll hrows hvirtual now
  · intro t text samples hread hsamples device hname hlong s
    rw [readAll_of_ok hread] at hsamples
    cases hsamples
    rw [find?_ofRows_iff, ← isPresent_virtualPath_iff t hname hlong, Bool.not_eq_true]

/-- A row whose name leads to the top: there is no directory of virtual interfaces, and still the
row gives no sample. -/
theorem unlisted_name_dropped :
    let text := "/: 1 0 0 0 0 0 0 0 2\n"
    let host := (Tree.ofTexts [(["proc", "net", "dev"], text)]).host
    ¬ host.ListsVirtual "/" "/" ∧ InterfaceRow.IsLastRow "/" text.toList ⟨"/", 1, 2⟩ ∧
      ∃ samples, readAll host "/" 0 = .ok samples ∧ samples.find? "/" = none := by
  intro text host
  have hlist : host.list (virtualDirectory "/") = .error .notFound := by decide +kernel
  have hread : host.readText (Path.joinAll "/" ["proc", "net", "dev"]) = .ok text.toList := by
    decide +kernel
  have hrow : InterfaceRow.IsLastRow "/" text.toList ⟨"/", 1, 2⟩ :=
    InterfaceRow.isLastRow_iff.mpr (by decide +kernel)
  refine ⟨?_, hrow, _, readAll_of_ok hread 0, by decide +kernel⟩
  rintro ⟨names, hnames, -⟩
  rw [hlist] at hnames
  cases hnames

end InterfaceSample

end HostGauge
