import HostGauge.Proofs.Json.Values
import HostGauge.Proofs.Settings.Fields
import HostGauge.Proofs.Text.Utf8
import HostGauge.Settings.File

/-!
Settings read from JSON. An object may give any of the fields, in any order, by either name,
between members of other names; it is read as the settings with the default for every field that
it does not give. The text that is written for settings is one of these texts.
-/
namespace HostGauge.Settings

open Json (WrittenString Document Blanks DocumentText PaddedText MemberText MembersText)

variable {s : Settings}

/-- A document that holds the value of a field. -/
inductive JsonHolds (s : Settings) : Field → Document → Prop
  | pollInterval : JsonHolds s .pollInterval
      (.number ⟨false, Numeral.write s.pollInterval.toNat, none, none⟩)
  | computer {c : String} {p : WrittenString} (hc : s.computer = some c) (hp : p.Means c.toList) :
      JsonHolds s .computer (.string p)
  | noComputer (hc : s.computer = none) : JsonHolds s .computer .null
  | root {p : WrittenString} (hp : p.Means s.root.toList) : JsonHolds s .root (.string p)
  | shutdownGrace : JsonHolds s .shutdownGrace
      (.number ⟨false, Numeral.write s.shutdownGrace.toNat, none, none⟩)
  | logLevel {p : WrittenString} (hp : p.Means s.logLevel.toList) :
      JsonHolds s .logLevel (.string p)

theorem JsonHolds.reads {f : Field} {d : Document} (h : JsonHolds s f d) :
    Reads jsonReader s d f := by
  have hword : ∀ w : UInt64,
      Json.WrittenNumber.word? ⟨false, Numeral.write w.toNat, none, none⟩ = some w :=
    fun w => Numeral.decimal64?_write w
  cases h with
  | pollInterval => exact hword _
  | computer hc hp =>
      have htext := WrittenString.text?_of_means hp
      simp [Reads, jsonReader, jsonText?, htext, hc]
  | noComputer hc => simp [Reads, jsonReader, hc]
  | root hp => exact WrittenString.text?_of_means hp
  | shutdownGrace => exact hword _
  | logLevel hp => exact WrittenString.text?_of_means hp

/-- A member whose name, however it is written, stands for a field or for none. -/
inductive JsonNames : WrittenString × Document → Option Field → Prop
  | mk {p : WrittenString} {name : String} {d : Document} {mark : Option Field}
      (hp : p.Means name.toList) (hname : Spells name mark) : JsonNames (p, d) mark

/-- A member that gives a field its value, or has a name that stands for no field. -/
def JsonGives (s : Settings) (m : WrittenString × Document) (mark : Option Field) : Prop :=
  JsonNames m mark ∧ ∀ f, mark = some f → JsonHolds s f m.2

theorem exists_jsonMembers {R : String × Document → Option Field → Prop}
    {members : List (WrittenString × Document)} {marks : List (Option Field)}
    (h : List.Forall₂ (fun m mark => ∃ name, m.1.text? = some name ∧ R (name, m.2) mark)
      members marks) :
    ∃ named, jsonMembers? members = some named ∧ List.Forall₂ R named marks := by
  induction h with
  | nil => exact ⟨[], rfl, .nil⟩
  | cons hm _ ih =>
      obtain ⟨name, htext, hname⟩ := hm
      obtain ⟨named, hnamed, hrest⟩ := ih
      refine ⟨_, ?_, .cons hname hrest⟩
      rw [jsonMembers?] at hnamed ⊢
      rw [List.mapM_cons, hnamed, htext]
      rfl

theorem ofJsonDocument?_of_gives {members : List (WrittenString × Document)}
    {marks : List (Option Field)} (h : List.Forall₂ (JsonGives s) members marks)
    (hnodup : marks.reduceOption.Nodup) :
    ofJsonDocument? (.object members) = some (s.only marks.reduceOption) := by
  have hmember : ∀ m mark, JsonGives s m mark →
      ∃ name, m.1.text? = some name ∧ Gives jsonReader s (name, m.2) mark := by
    rintro _ mark ⟨⟨hp, hname⟩, hvalue⟩
    refine ⟨_, WrittenString.text?_of_means hp, ?_⟩
    cases mark with
    | some f => exact .field hname (hvalue f rfl).reads
    | none => exact .other hname
  obtain ⟨named, hnamed, hgives⟩ := exists_jsonMembers (h.imp hmember)
  rw [ofJsonDocument?, hnamed, Option.bind_some, ofMembers?_of_gives hgives hnodup]

theorem ofJsonDocument?_of_not_nodup {members : List (WrittenString × Document)}
    {marks : List (Option Field)} (h : List.Forall₂ JsonNames members marks)
    (hnodup : ¬ marks.reduceOption.Nodup) : ofJsonDocument? (.object members) = none := by
  have hmember : ∀ m mark, JsonNames m mark →
      ∃ name, m.1.text? = some name ∧ Spells (name, m.2).1 mark := by
    rintro _ mark ⟨hp, hname⟩
    exact ⟨_, WrittenString.text?_of_means hp, hname⟩
  obtain ⟨named, hnamed, hnames⟩ :=
    exists_jsonMembers (R := fun m mark => Spells m.1 mark) (h.imp hmember)
  rw [ofJsonDocument?, hnamed, Option.bind_some, ofMembers?_of_not_nodup hnames hnodup]

/-! ### Settings as they are written -/

theorem exists_jsonValue (s : Settings) (f : Field) :
    ∃ d, DocumentText d (jsonValue s f).compact ∧ JsonHolds s f d := by
  have hinteger : ∀ n : ℕ, DocumentText (.number ⟨false, Numeral.write n, none, none⟩)
      (Json.ofNat n).compact := fun n => .number (Json.isText_integerText n)
  have hstring : ∀ t : String, ∃ p : WrittenString, DocumentText (.string p)
      (Json.string t).compact ∧ p.Means t.toList := by
    intro t
    obtain ⟨p, htext, hp⟩ := Json.exists_writtenString t.toList
    exact ⟨p, .string htext, hp⟩
  cases f with
  | pollInterval => exact ⟨_, hinteger _, .pollInterval⟩
  | computer =>
      rw [jsonValue]
      split
      case h_1 c hc =>
        obtain ⟨p, htext, hp⟩ := hstring c
        exact ⟨_, htext, .computer hc hp⟩
      case h_2 hc => exact ⟨_, .null, .noComputer hc⟩
  | root =>
      obtain ⟨p, htext, hp⟩ := hstring s.root
      exact ⟨_, htext, .root hp⟩
  | shutdownGrace => exact ⟨_, hinteger _, .shutdownGrace⟩
  | logLevel =>
      obtain ⟨p, htext, hp⟩ := hstring s.logLevel
      exact ⟨_, htext, .logLevel hp⟩

/-- A line is the text of a member that gives its field, also with blanks after it. -/
theorem exists_jsonLine (s : Settings) (f : Field) {after : List Char} (hafter : Blanks after) :
    ∃ m, MemberText m (jsonLine s f ++ after) ∧ JsonGives s m (some f) := by
  obtain ⟨d, htext, hholds⟩ := exists_jsonValue s f
  obtain ⟨p, hname, hp⟩ := Json.exists_writtenString f.name.toList
  have hbefore : Blanks ['\n', ' ', ' '] := by decide
  have hspace : Blanks [' '] := by decide
  have hnone : Blanks [] := fun _ hc => nomatch hc
  have hm := MemberText.mk hbefore hname hnone (.mk hspace htext hafter)
  refine ⟨(p, d), ?_, ⟨hp, .byName f⟩, ?_⟩
  · simpa [jsonLine, Json.quoted] using hm
  · rintro g ⟨⟩
    exact hholds

theorem exists_jsonLines (s : Settings) (f : Field) (rest : List Field) :
    ∃ members, MembersText members
        (Json.commaSeparated ((f :: rest).map (jsonLine s)) ++ ['\n']) ∧
      List.Forall₂ (JsonGives s) members ((f :: rest).map some) := by
  induction rest generalizing f with
  | nil =>
      obtain ⟨m, htext, hgives⟩ := exists_jsonLine s f (by decide : Blanks ['\n'])
      exact ⟨[m], .last htext, .cons hgives .nil⟩
  | cons g rest ih =>
      obtain ⟨m, htext, hgives⟩ := exists_jsonLine s f (by decide : Blanks [])
      obtain ⟨members, hrest, hmembers⟩ := ih g
      rw [List.append_nil] at htext
      refine ⟨m :: members, ?_, .cons hgives hmembers⟩
      have hcomma : Json.commaSeparated ((f :: g :: rest).map (jsonLine s)) =
          jsonLine s f ++ ',' :: Json.commaSeparated ((g :: rest).map (jsonLine s)) := rfl
      rw [hcomma, List.append_assoc]
      exact .more htext hrest

theorem exists_toJson (s : Settings) :
    ∃ members, PaddedText (.object members) s.toJson ∧
      List.Forall₂ (JsonGives s) members (Field.all.map some) := by
  obtain ⟨members, htext, hgives⟩ := exists_jsonLines s .pollInterval Field.all.tail
  refine ⟨members, .bare ?_, hgives⟩
  rw [toJson]
  have hobject := DocumentText.object htext
  rwa [List.append_assoc] at hobject

/-- The law of settings in JSON. An object that gives fields of some settings, none of them twice,
loads as these settings with the default for every other field; an object that gives a field
twice is refused, whatever the values are; the text written for settings loads as these. -/
theorem load_json {host : Host} {path : String} {text : List Char}
    (hformat : Path.extension? path = some "json") (hread : host.readText path = .ok text) :
    (∀ (s : Settings) (members : List (WrittenString × Document)) (marks : List (Option Field)),
      PaddedText (.object members) text → List.Forall₂ (JsonGives s) members marks →
      marks.reduceOption.Nodup →
      (load host path).1 = .ok (s.only marks.reduceOption)) ∧
    (∀ (members : List (WrittenString × Document)) (marks : List (Option Field)),
      PaddedText (.object members) text → List.Forall₂ JsonNames members marks →
      ¬ marks.reduceOption.Nodup →
      (load host path).1 = .error (.malformed .json)) ∧
    ∀ s : Settings, text = s.render .json → (load host path).1 = .ok s := by
  have hpath : Format.ofPath path = .json := by rw [Format.ofPath, hformat]; rfl
  have hdocument : ∀ {d : Document}, PaddedText d text →
      ofText? (Format.ofPath path) text = ofJsonDocument? d := by
    intro d htext
    rw [hpath]
    exact congrArg (·.bind ofJsonDocument?) (Document.parse?_of_paddedText htext)
  refine ⟨?_, ?_, ?_⟩
  case refine_1 =>
    intro s members marks htext hgives hnodup
    exact load_of_some hread ((hdocument htext).trans (ofJsonDocument?_of_gives hgives hnodup))
  case refine_2 =>
    intro members marks htext hnames hnodup
    rw [load_of_none hread
      ((hdocument htext).trans (ofJsonDocument?_of_not_nodup hnames hnodup)), hpath]
  case refine_3 =>
    rintro s rfl
    obtain ⟨members, htext, hgives⟩ := exists_toJson s
    have hfields := reduceOption_some Field.all
    have hnodup : (Field.all.map some).reduceOption.Nodup := by decide
    rw [load_of_some hread ((hdocument htext).trans (ofJsonDocument?_of_gives hgives hnodup)),
      hfields, only_all]

/-- Two fields by their aliases beside a member of another name, a field by both of its names,
and a written text with a quote, a backslash and a control character. -/
theorem load_json_mixed :
    (load (Host.holding
        "\x7b\"poll\":7,\"note\":[null],\"log-level\":\"debug\"\x7d".toList)
      "/etc/gauge.json").1 = .ok { pollInterval := 7, logLevel := "debug" } ∧
    (load (Host.holding "\x7b\"poll\":7,\"poll_interval_seconds\":8\x7d".toList)
      "/etc/gauge.json").1 = .error (.malformed .json) ∧
    (load (Host.holding
        (Settings.render { computer := some "a\"b", root := "\\\x01" } .json))
      "/etc/gauge.json").1 = .ok { computer := some "a\"b", root := "\\\x01" } := by
  have hseven := Json.isText_integerText 7
  have height := Json.isText_integerText 8
  obtain ⟨poll, hpoll, hpollName⟩ := Json.exists_memberText "poll" (.number hseven)
  obtain ⟨interval, hinterval, hintervalName⟩ :=
    Json.exists_memberText "poll_interval_seconds" (.number height)
  obtain ⟨note, hnote, hnoteName⟩ :=
    Json.exists_memberText "note" (.array (.last (.bare .null)))
  obtain ⟨debug, hdebug, hdebugText⟩ := Json.exists_writtenString "debug".toList
  obtain ⟨level, hlevel, hlevelName⟩ := Json.exists_memberText "log-level" (.string hdebug)
  refine ⟨?_, ?_, ?_⟩
  case refine_1 =>
    have hpollMember : JsonGives { pollInterval := 7, logLevel := "debug" }
        (poll, .number (Json.writtenInteger 7)) (some .pollInterval) :=
      ⟨⟨hpollName, .byAlias rfl⟩, by rintro _ ⟨⟩; exact .pollInterval⟩
    have hnoteMember : JsonGives { pollInterval := 7, logLevel := "debug" }
        (note, .array [.null]) none :=
      ⟨⟨hnoteName, .other (by intro f; cases f <;> decide)⟩, by rintro _ ⟨⟩⟩
    have hlevelMember : JsonGives { pollInterval := 7, logLevel := "debug" }
        (level, .string debug) (some .logLevel) :=
      ⟨⟨hlevelName, .byAlias rfl⟩, by rintro _ ⟨⟩; exact .logLevel hdebugText⟩
    exact (load_json (by decide) (Host.readText_holding _ _)).1 _ _ _
      (.bare (.object (.more hpoll (.more hnote (.last hlevel)))))
      (.cons hpollMember (.cons hnoteMember (.cons hlevelMember .nil))) (by decide)
  case refine_2 =>
    exact (load_json (by decide) (Host.readText_holding _ _)).2.1 _ _
      (.bare (.object (.more hpoll (.last hinterval))))
      (.cons ⟨hpollName, .byAlias (f := .pollInterval) rfl⟩
        (.cons ⟨hintervalName, .byName .pollInterval⟩ .nil)) (by decide)
  case refine_3 =>
    exact (load_json (by decide) (Host.readText_holding _ _)).2.2 _ rfl

end HostGauge.Settings
