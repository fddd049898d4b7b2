import HostGauge.Metric
import HostGauge.Proofs.Json.Reals

/-!
Tags of tuples. They are rendered as JSON text, and this text is a string within the JSON text of
the tuple; what is read back, once or twice, are the tags that were given with the tag of the
machine among them.
-/
namespace HostGauge

theorem MetricFactory.plain_machineId (ids : AgentIds) (computer : Option String) (depth : ℕ) :
    Json.Plain (depth + 1) (ofIds ids computer).machineId := by
  cases ids with
  | single id => exact .string _
  | multiple ids =>
      refine .array fun v hv => ?_
      obtain ⟨id, -, rfl⟩ := List.mem_map.mp hv
      exact .string _

/-- The JSON text of a tuple is read as an object with the text of the tags, whatever its value
is. -/
theorem MetricTuple.exists_parse?_json (t : MetricTuple) :
    ∃ members, Json.parse? t.json = some (.object members) ∧
      members.lookup "Tags" = some (.string t.tags) := by
  obtain ⟨v, hv⟩ := Json.exists_readsAs_ofFloat 126 t.value
  have hstring : ∀ name s, Json.MemberReadsAs 126 (name, .string s) (name, .string s) :=
    fun _ s => ⟨rfl, Json.readsAs_string s⟩
  have hcomputer : ∀ computer : Option String, List.Forall₂ (Json.MemberReadsAs 126)
      (computer.toList.map fun c => ("Computer", .string c))
      (computer.toList.map fun c => ("Computer", .string c)) := fun _ =>
    List.forall₂_same.mpr fun m hm => by
      obtain ⟨c, -, rfl⟩ := List.mem_map.mp hm
      exact hstring _ c
  have hvalue : Json.MemberReadsAs 126 ("Value", .ofFloat t.value) ("Value", v) := ⟨rfl, hv⟩
  have hread : Json.ReadsAs 127 (.object t.members) _ := Json.readsAs_object
    (.cons (hstring "Origin" t.origin) (.cons (hstring "Namespace" t.subject)
      (.cons (hstring "Name" t.name) (.cons hvalue (.cons (hstring "Tags" t.tags)
        (.cons (hstring "CollectionTime" t.collectionTime) (hcomputer t.computer)))))))
  refine ⟨_, Json.parse?_of_readsAs hread, ?_⟩
  rw [Json.lookup_membersOf]
  cases t.computer <;> simp [Json.lookup_cons]

/-- Tags survive the way through the text of a tuple. They are rendered as a JSON text whose names
are unique and ascend, at every depth. -/
theorem MetricFactory.tags_survive (ids : AgentIds) (computer : Option String)
    (subject name : String) (value : Float) (time : UtcInstant) {tags : Tags}
    (h : Json.Plain Json.maxDepth (.object tags)) :
    let f := ofIds ids computer
    let t := f.tuple subject name value tags time
    let all := Json.insert "vm.azm.ms/machineId" f.machineId tags
    t.tagMap = all ∧ Json.Plain Json.maxDepth (.object all) ∧
      (∀ key, all.lookup key =
        if key = "vm.azm.ms/machineId" then some f.machineId else tags.lookup key) ∧
      (∃ d, Json.DocumentText d t.tags.toList) ∧
      ∃ members text, Json.parse? t.json = some (.object members) ∧
        members.lookup "Tags" = some (.string text) ∧
        Json.parse? text.toList = some (.object all) := by
  intro f t all
  have hall : Json.Plain Json.maxDepth (.object all) :=
    h.insert "vm.azm.ms/machineId" (plain_machineId ids computer 125)
  have htext : t.tags.toList = Json.compact (.object all) := String.toList_ofList
  have hparse : Json.parse? t.tags.toList = some (.object all) := by
    rw [htext, hall.parse?_compact]
  have htagMap : t.tagMap = all := by rw [MetricTuple.tagMap, hparse]
  obtain ⟨d, hd, -⟩ := hall.readsAs
  obtain ⟨members, hmembers, htags⟩ := t.exists_parse?_json
  exact ⟨htagMap, hall, Json.lookup_insert _ _ _, ⟨d, htext ▸ hd⟩, members, t.tags, hmembers, htags,
    hparse⟩

/-- A tag that was given under the name of the machine is replaced, and quotes, controls and
integers at the ends of their ranges come back from within nested values. -/
theorem MetricFactory.tags_survive_nested :
    let nested : Json := .array [.null, .object [("\"\\\x01", .number (.integer (-2 ^ 63))),
      ("é😀", .array [.bool true, .number (.integer (2 ^ 64 - 1)), .string "\n\x7f"])]]
    let t := (ofIds (.multiple ["ü", ""]) (some "host")).tuple "Memory" "AvailableMB" 0.1
      [("a", nested), ("vm.azm.ms/machineId", .string "mine"), ("z", .object [])] ⟨0, 0⟩
    let all : Tags := [("a", nested),
      ("vm.azm.ms/machineId", .array [.string "m-ü", .string "m-"]), ("z", .object [])]
    t.tagMap = all ∧ ∃ members text, Json.parse? t.json = some (.object members) ∧
      members.lookup "Tags" = some (.string text) ∧
      Json.parse? text.toList = some (.object all) := by
  intro nested t all
  have hnested : Json.Plain 126 nested := by
    refine .array ?_
    simp only [List.forall_mem_cons]
    refine ⟨.null, .object (by decide) ?_, fun _ hv => nomatch hv⟩
    simp only [List.forall_mem_cons]
    refine ⟨.integer (by decide) (by decide), .array ?_, fun _ hv => nomatch hv⟩
    simp only [List.forall_mem_cons]
    exact ⟨.bool true, .integer (by decide) (by decide), .string _, fun _ hv => nomatch hv⟩
  have hplain : Json.Plain Json.maxDepth (.object
      [("a", nested), ("vm.azm.ms/machineId", .string "mine"), ("z", .object [])]) := by
    refine .object (by decide) ?_
    simp only [List.forall_mem_cons]
    exact ⟨hnested, .string _, .object .nil fun _ hm => (nomatch hm), fun _ hm => nomatch hm⟩
  have hsurvive := tags_survive (.multiple ["ü", ""]) (some "host") "Memory" "AvailableMB" 0.1
    ⟨0, 0⟩ hplain
  exact ⟨hsurvive.1, hsurvive.2.2.2.2⟩

end HostGauge
