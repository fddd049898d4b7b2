import HostGauge.AgentIds
import HostGauge.Proofs.Host.Path
import HostGauge.Proofs.Selection
import HostGauge.Proofs.Text.Field
import HostGauge.Proofs.Text.Line
import Mathlib.Data.List.Sort
import Mathlib.Data.String.Basic

/-!
The identifiers of an agent, by what its directories hold. Which they are follows from the names
and the files alone: not from the order in which a directory lists its names, and with a workspace
that has a configuration not from the single configuration of an older agent either.
-/
namespace HostGauge.AgentIds

variable {lengths : List ℕ} {s text value : List Char} {id root path name : String}
  {host host' : Host}

/-- Groups of these lengths, none with a slash, joined by hyphens. -/
def HasGroups (lengths : List ℕ) (s : List Char) : Prop :=
  ∃ groups : List (List Char), groups.map List.length = lengths ∧ (∀ group ∈ groups, '/' ∉ group) ∧
    s = ['-'].intercalate groups

/-- What stands behind the label on the first line that starts with it, up to an equals sign. -/
def FirstValue (text value : List Char) : Prop :=
  ∃ before rest after, Text.lines text = before ++ (label ++ (value ++ rest)) :: after ∧
    (∀ line ∈ before, ¬ label <+: line) ∧ '=' ∉ value ∧ rest.head?.all (· = '=')

/-- The file at a path can be read, is a text and has this identifier as its first value. -/
def Gives (host : Host) (path id : String) : Prop :=
  ∃ bytes text value, host.read path = .ok bytes ∧ Text.Utf8.decode? bytes = some text ∧
    FirstValue text value ∧ Text.Trims value id.toList ∧ id ≠ ""

/-- The ways in which the file at a path has no identifier. -/
inductive Silent (host : Host) (path : String) : Prop
  | unreadable {cause : FileFault} (h : host.read path = .error cause)
  | notText {bytes : List UInt8} (h : host.read path = .ok bytes)
      (htext : Text.Utf8.decode? bytes = none)
  | noLabel {bytes : List UInt8} {text : List Char} (h : host.read path = .ok bytes)
      (htext : Text.Utf8.decode? bytes = some text)
      (hlabel : ∀ line ∈ Text.lines text, ¬ label <+: line)
  | blank {bytes : List UInt8} {text value : List Char} (h : host.read path = .ok bytes)
      (htext : Text.Utf8.decode? bytes = some text) (hvalue : FirstValue text value)
      (hblank : Text.IsGap value)

/-- The configuration of a workspace. -/
def workspaceConfig (root name : String) : String :=
  configPath (Path.join (baseDirectory root) name)

/-- The single configuration of an older agent. -/
def singleConfig (root : String) : String := configPath (baseDirectory root)

/-- The names in the base directory, none where it cannot be listed. -/
def listed (host : Host) (root : String) : List String :=
  match host.list (baseDirectory root) with
  | .error _ => []
  | .ok names => names

/-- A directory with the name of a workspace that has a configuration. -/
structure IsWorkspace (host : Host) (root name : String) : Prop where
  shape : HasGroups [8, 4, 4, 4, 12] name.toList
  config : host.isRegularFile (workspaceConfig root name)

/-- The same names in any order, or a directory that can be listed on neither side. -/
inductive SameNames : Except FileFault (List String) → Except FileFault (List String) → Prop
  | listed {names names' : List String} (h : names.Perm names') : SameNames (.ok names) (.ok names')
  | unlisted (cause cause' : FileFault) : SameNames (.error cause) (.error cause')

/-- Hosts with the same directories and files, which at these paths also hold the same. -/
structure Alike (paths : String → Prop) (host host' : Host) : Prop where
  read : ∀ path, paths path → host'.read path = host.read path
  isRegularFile : ∀ path, host'.isRegularFile path = host.isRegularFile path
  names : ∀ path, SameNames (host.list path) (host'.list path)

/-! ### The name of a workspace -/

theorem hasGroups_nil : HasGroups [] s ↔ s = [] := by
  constructor
  · rintro ⟨groups, hlengths, -, rfl⟩
    rw [List.map_eq_nil_iff.mp hlengths]
    rfl
  · rintro rfl
    exact ⟨[], rfl, fun _ h => (nomatch h), rfl⟩

theorem hasGroups_singleton {n : ℕ} : HasGroups [n] s ↔ s.length = n ∧ '/' ∉ s := by
  constructor
  · rintro ⟨groups, hlengths, hslash, rfl⟩
    obtain ⟨group, rfl, hlength⟩ := List.map_eq_singleton_iff.mp hlengths
    rw [List.intercalate_singleton]
    exact ⟨hlength, hslash group List.mem_cons_self⟩
  · rintro ⟨rfl, hslash⟩
    exact ⟨[s], rfl, List.forall_mem_singleton.mpr hslash, List.intercalate_singleton.symm⟩

theorem hasGroups_cons {n : ℕ} (hmore : lengths ≠ []) : HasGroups (n :: lengths) s ↔
    ∃ group rest, group.length = n ∧ '/' ∉ group ∧ HasGroups lengths rest ∧
      s = group ++ '-' :: rest := by
  constructor
  · rintro ⟨groups, hlengths, hslash, rfl⟩
    obtain ⟨group, groups, rfl, rfl, rfl⟩ := List.map_eq_cons_iff.mp hlengths
    obtain ⟨hfirst, hslash⟩ := List.forall_mem_cons.mp hslash
    obtain ⟨next, groups, rfl⟩ := List.exists_cons_of_ne_nil (mt List.map_eq_nil_iff.mpr hmore)
    refine ⟨group, _, rfl, hfirst, ⟨next :: groups, rfl, hslash, rfl⟩, ?_⟩
    rw [List.intercalate_cons_cons, List.append_assoc]
    rfl
  · rintro ⟨group, _, rfl, hfirst, ⟨groups, rfl, hslash, rfl⟩, rfl⟩
    obtain ⟨next, groups, rfl⟩ := List.exists_cons_of_ne_nil (mt List.map_eq_nil_iff.mpr hmore)
    refine ⟨group :: next :: groups, rfl, List.forall_mem_cons.mpr ⟨hfirst, hslash⟩, ?_⟩
    rw [List.intercalate_cons_cons, List.append_assoc]
    rfl

theorem all_ne_slash_iff : s.all (· ≠ '/') ↔ '/' ∉ s := by
  simp only [List.all_eq_true, decide_eq_true_eq, List.forall_mem_ne']

theorem hasShape_cons {n : ℕ} (hmore : lengths ≠ []) : hasShape (n :: lengths) s ↔
    (s.take n).length = n ∧ '/' ∉ s.take n ∧ (s.drop n).head? = some '-' ∧
      hasShape lengths (s.drop (n + 1)) := by
  cases lengths with
  | nil => exact absurd rfl hmore
  | cons next lengths =>
      simp only [hasShape, Bool.and_eq_true, decide_eq_true_iff, all_ne_slash_iff, and_assoc]

theorem hasShape_iff : hasShape lengths s ↔ HasGroups lengths s := by
  induction lengths generalizing s with
  | nil => rw [hasGroups_nil, hasShape, List.isEmpty_iff]
  | cons n lengths ih =>
      by_cases hmore : lengths = []
      · rw [hmore, hasGroups_singleton, hasShape, Bool.and_eq_true, decide_eq_true_iff,
          all_ne_slash_iff]
      · rw [hasGroups_cons hmore, hasShape_cons hmore, ih]
        constructor
        · rintro ⟨hlength, hslash, hhyphen, hrest⟩
          refine ⟨s.take n, s.drop (n + 1), hlength, hslash, hrest, ?_⟩
          obtain ⟨rest, hdrop⟩ := List.head?_eq_some_iff.mp hhyphen
          have htail : s.drop (n + 1) = rest := by rw [← List.tail_drop, hdrop, List.tail_cons]
          rw [htail, ← hdrop, List.take_append_drop]
        · rintro ⟨group, rest, rfl, hslash, hrest, rfl⟩
          have htail : (group ++ '-' :: rest).drop (group.length + 1) = rest := by simp
          rw [List.take_left, List.drop_left, htail]
          exact ⟨rfl, hslash, rfl, hrest⟩

/-! ### The identifier of a file -/

/-- The value on the first line that starts with the label. -/
def firstValue? (text : List Char) : Option (List Char) :=
  ((Text.lines text).findSome? (Text.stripStart label)).map (·.takeWhile (· ≠ '='))

theorem firstValue?_eq_some_iff : firstValue? text = some value ↔ FirstValue text value := by
  unfold firstValue? FirstValue
  simp only [Option.map_eq_some_iff, List.findSome?_eq_some_iff, Text.stripStart_eq_some_iff,
    Text.stripStart_eq_none_iff]
  have hequals : ∀ s : List Char, (∀ c ∈ s, decide (c ≠ '=')) ↔ '=' ∉ s := by
    intro s
    simp only [decide_eq_true_eq, List.forall_mem_ne']
  constructor
  · rintro ⟨_, ⟨before, _, after, hlines, rfl, hbefore⟩, hvalue⟩
    obtain ⟨rest, rfl, hsolid, hrest⟩ := Text.takeWhile_eq_iff.mp hvalue
    exact ⟨before, rest, after, hlines, hbefore, (hequals value).mp hsolid, by simpa using hrest⟩
  · rintro ⟨before, rest, after, hlines, hbefore, hsolid, hrest⟩
    refine ⟨value ++ rest, ⟨before, _, after, hlines, rfl, hbefore⟩, ?_⟩
    exact Text.takeWhile_run ((hequals value).mpr hsolid) (by simpa using hrest)

theorem firstValue?_eq_none_iff :
    firstValue? text = none ↔ ∀ line ∈ Text.lines text, ¬ label <+: line := by
  unfold firstValue?
  rw [Option.map_eq_none_iff, List.findSome?_eq_none_iff]
  simp only [Text.stripStart_eq_none_iff]

theorem parse_eq (text : List Char) : parse text = (firstValue? text).bind fun value =>
    if Text.trim value = [] then none else some (String.ofList (Text.trim value)) := by
  unfold parse firstValue?
  cases (Text.lines text).findSome? (Text.stripStart label) with
  | none => rfl
  | some rest => simp only [Option.map_some, Option.bind_some, List.isEmpty_iff]

theorem parse_eq_some_iff : parse text = some id ↔
    ∃ value, FirstValue text value ∧ Text.Trims value id.toList ∧ id ≠ "" := by
  simp only [parse_eq, Option.bind_eq_some_iff, firstValue?_eq_some_iff, ← Text.trim_eq_iff,
    Option.ite_none_left_eq_some, Option.some_inj]
  refine exists_congr fun value => and_congr_right fun _ => ?_
  constructor
  · rintro ⟨hne, rfl⟩
    rw [String.toList_ofList, ← String.ofList_nil, Ne, String.ofList_inj]
    exact ⟨rfl, hne⟩
  · rintro ⟨htrim, hne⟩
    rw [htrim, String.ofList_toList]
    exact ⟨mt String.toList_eq_nil_iff.mp hne, rfl⟩

theorem parse_eq_none_iff : parse text = none ↔
    (∀ line ∈ Text.lines text, ¬ label <+: line) ∨
      ∃ value, FirstValue text value ∧ Text.IsGap value := by
  rw [parse_eq, ← firstValue?_eq_none_iff]
  simp only [← firstValue?_eq_some_iff, ← Text.trims_nil_iff, ← Text.trim_eq_iff]
  cases firstValue? text with
  | none => simp
  | some value => simp

theorem readConfig_of_error {cause : FileFault} (h : host.read path = .error cause) :
    readConfig host path = none := by
  rw [readConfig, Host.readText, h]

theorem readConfig_of_ok {bytes : List UInt8} (h : host.read path = .ok bytes) :
    readConfig host path = (Text.Utf8.decode? bytes).bind parse := by
  rw [readConfig, Host.readText, h]
  dsimp only
  cases Text.Utf8.decode? bytes <;> rfl

theorem readConfig_eq_some_iff : readConfig host path = some id ↔ Gives host path id := by
  constructor
  · intro h
    cases hread : host.read path with
    | error cause =>
        rw [readConfig_of_error hread] at h
        cases h
    | ok bytes =>
        rw [readConfig_of_ok hread] at h
        obtain ⟨text, htext, hid⟩ := Option.bind_eq_some_iff.mp h
        obtain ⟨value, hvalue⟩ := parse_eq_some_iff.mp hid
        exact ⟨bytes, text, value, hread, htext, hvalue⟩
  · rintro ⟨bytes, text, value, hread, htext, hvalue⟩
    rw [readConfig_of_ok hread, htext]
    exact parse_eq_some_iff.mpr ⟨value, hvalue⟩

theorem silent_iff : Silent host path ↔ readConfig host path = none := by
  constructor
  · intro h
    cases h with
    | unreadable h => exact readConfig_of_error h
    | notText h htext => rw [readConfig_of_ok h, htext, Option.bind_none]
    | noLabel h htext hlabel =>
        rw [readConfig_of_ok h, htext]
        exact parse_eq_none_iff.mpr (.inl hlabel)
    | blank h htext hvalue hblank =>
        rw [readConfig_of_ok h, htext]
        exact parse_eq_none_iff.mpr (.inr ⟨_, hvalue, hblank⟩)
  · intro h
    cases hread : host.read path with
    | error cause => exact .unreadable hread
    | ok bytes =>
        rw [readConfig_of_ok hread] at h
        cases htext : Text.Utf8.decode? bytes with
        | none => exact .notText hread htext
        | some text =>
            rw [htext] at h
            rcases parse_eq_none_iff.mp h with hlabel | ⟨value, hvalue, hblank⟩
            · exact .noLabel hread htext hlabel
            · exact .blank hread htext hvalue hblank

theorem forall_not_gives_iff : (∀ id, ¬ Gives host path id) ↔ Silent host path := by
  rw [silent_iff, Option.eq_none_iff_forall_ne_some]
  exact forall_congr' fun id => not_congr readConfig_eq_some_iff.symm

/-! ### The workspaces -/

/-- The names of the workspaces that have a configuration, in their order. -/
def workspaces (host : Host) (root : String) : List String :=
  ((listed host root).filter isWorkspaceName).mergeSort (fun a b => a ≤ b)
    |>.filter fun name => host.isRegularFile (workspaceConfig root name)

/-- The files that the identifiers are taken from. -/
def sources (host : Host) (root : String) : List String :=
  if workspaces host root = [] then [singleConfig root]
  else (workspaces host root).map (workspaceConfig root)

theorem workspaceConfigs_eq (host : Host) (root : String) :
    workspaceConfigs host root = (workspaces host root).map (workspaceConfig root) := by
  unfold workspaceConfigs workspaces listed
  cases host.list (baseDirectory root) with
  | error cause =>
      dsimp only
      rw [List.filter_nil, List.mergeSort_nil]
      rfl
  | ok names =>
      dsimp only
      rw [List.filter_map]
      rfl

theorem read_eq (host : Host) (root : String) :
    read host root = ofList? ((sources host root).filterMap (readConfig host)) := by
  unfold read sources
  rw [workspaceConfigs_eq]
  cases workspaces host root with
  | nil =>
      rw [if_pos rfl, List.filterMap_cons, singleConfig]
      cases readConfig host (configPath (baseDirectory root)) <;> rfl
  | cons name names => rfl

theorem pairwise_workspaces (host : Host) (root : String) :
    (workspaces host root).Pairwise (· ≤ ·) :=
  (List.pairwise_mergeSort' (· ≤ ·) _).filter _

theorem isWorkspace_iff : IsWorkspace host root name ↔
    host.isRegularFile (workspaceConfig root name) && isWorkspaceName name := by
  rw [Bool.and_eq_true, isWorkspaceName, hasShape_iff]
  exact ⟨fun h => ⟨h.config, h.shape⟩, fun h => ⟨h.2, h.1⟩⟩

instance : Decidable (IsWorkspace host root name) := decidable_of_iff _ isWorkspace_iff.symm

theorem workspaces_perm (host : Host) (root : String) :
    (workspaces host root).Perm ((listed host root).filter (IsWorkspace host root ·)) := by
  apply ((List.mergeSort_perm _ _).filter _).trans
  simp only [List.filter_filter, isWorkspace_iff, Bool.decide_eq_true]
  exact .rfl

/-! ### What the identifiers depend on -/

/-- The name of a workspace begins with eight characters that are no slash. -/
theorem IsWorkspace.exists_group (h : IsWorkspace host root name) :
    ∃ group rest, group.length = 8 ∧ '/' ∉ group ∧ name.toList = group ++ '-' :: rest := by
  obtain ⟨group, rest, hlength, hslash, -, hname⟩ :=
    (hasGroups_cons (List.cons_ne_nil _ _)).mp h.shape
  exact ⟨group, rest, hlength, hslash, hname⟩

theorem IsWorkspace.relative (h : IsWorkspace host root name) : Path.isAbsolute name = false := by
  obtain ⟨group, rest, hlength, hslash, hname⟩ := h.exists_group
  obtain ⟨c, group, rfl⟩ := List.exists_cons_of_length_eq_add_one hlength
  have hc : c ≠ '/' := (List.ne_of_not_mem_cons hslash).symm
  rw [Path.isAbsolute, hname]
  simpa using hc

theorem IsWorkspace.lt_length (h : IsWorkspace host root name) : 8 < name.length := by
  obtain ⟨group, rest, hlength, -, hname⟩ := h.exists_group
  rw [← String.length_toList, hname, List.length_append, List.length_cons, hlength]
  omega

theorem length_configPath (directory : String) :
    directory.length + 17 ≤ (configPath directory).length ∧
      (configPath directory).length ≤ directory.length + 19 := by
  have hconf := @Path.length_join "conf" directory rfl
  have hfile := @Path.length_join "omsadmin.conf" (Path.join directory "conf") rfl
  have hlengths : "conf".length = 4 ∧ "omsadmin.conf".length = 13 := by decide
  change _ ≤ (configPath directory).length ∧ (configPath directory).length ≤ _ at hfile
  omega

/-- A path to the configuration of a workspace is longer than that to the single one. -/
theorem IsWorkspace.ne_singleConfig (h : IsWorkspace host root name) :
    workspaceConfig root name ≠ singleConfig root := by
  have hname := Path.length_join (baseDirectory root) h.relative
  have hconfig := length_configPath (Path.join (baseDirectory root) name)
  have hsingle := length_configPath (baseDirectory root)
  have hlonger := h.lt_length
  intro heq
  have hlength := congrArg String.length heq
  unfold workspaceConfig singleConfig at hlength
  omega

section Alike

variable {paths : String → Prop} (h : Alike paths host host')

include h

theorem listed_alike (root : String) : (listed host' root).Perm (listed host root) := by
  have hnames := h.names (baseDirectory root)
  unfold listed
  generalize host.list (baseDirectory root) = names at hnames
  generalize host'.list (baseDirectory root) = names' at hnames
  cases hnames with
  | listed hperm => exact hperm.symm
  | unlisted cause cause' => exact .rfl

theorem workspaces_alike (root : String) : workspaces host' root = workspaces host root := by
  have hsame : ∀ name, IsWorkspace host' root name ↔ IsWorkspace host root name := by
    intro name
    rw [isWorkspace_iff, isWorkspace_iff, h.isRegularFile]
  apply List.Perm.eq_of_pairwise' (r := (· ≤ ·)) (pairwise_workspaces host' root)
    (pairwise_workspaces host root)
  apply (workspaces_perm host' root).trans
  apply List.Perm.trans ?_ (workspaces_perm host root).symm
  simp only [hsame]
  exact (listed_alike h root).filter _

/-- No more is asked of a host than which names and files there are and what the sources hold. -/
theorem read_alike (hsources : ∀ path ∈ sources host root, paths path) :
    read host' root = read host root := by
  have hsame : sources host' root = sources host root := by
    unfold sources
    rw [workspaces_alike h]
  rw [read_eq, read_eq, hsame]
  refine congrArg ofList? (List.filterMap_congr fun path hpath => ?_)
  unfold readConfig Host.readText
  rw [h.read path (hsources path hpath)]

end Alike

theorem mem_workspaces_iff : name ∈ workspaces host root ↔
    name ∈ listed host root ∧ IsWorkspace host root name := by
  rw [(workspaces_perm host root).mem_iff, List.mem_filter, decide_eq_true_iff]

/-- With a workspace the single configuration is no source. -/
theorem ne_singleConfig_of_mem_sources (hname : name ∈ listed host root)
    (hworkspace : IsWorkspace host root name) (hpath : path ∈ sources host root) :
    path ≠ singleConfig root := by
  have hsome := List.ne_nil_of_mem (mem_workspaces_iff.mpr ⟨hname, hworkspace⟩)
  unfold sources at hpath
  rw [if_neg hsome] at hpath
  obtain ⟨other, hother, rfl⟩ := List.mem_map.mp hpath
  exact (mem_workspaces_iff.mp hother).2.ne_singleConfig

/-- The law of the identifiers. They are those that the configurations of the workspaces give, in
the order of the names, and only without such a configuration that of the single one; a file gives
none exactly if it cannot be read, is no text, has no line with the label, or has a blank value on
the first one. In which order directories list their names makes no difference, and with a
workspace neither does what the single configuration holds. -/
theorem discovered_by_name (host : Host) (root : String) :
    (∃ names ids, names.Pairwise (· ≤ ·) ∧
      names.Perm ((listed host root).filter (IsWorkspace host root ·)) ∧
      Selects (Gives host)
        (if names = [] then [singleConfig root] else names.map (workspaceConfig root)) ids ∧
      read host root = ofList? ids) ∧
    (∀ path, (∀ id, ¬ Gives host path id) ↔ Silent host path) ∧
    (∀ host', Alike (fun _ => True) host host' → read host' root = read host root) ∧
    ((∃ name ∈ listed host root, IsWorkspace host root name) →
      ∀ host', Alike (· ≠ singleConfig root) host host' → read host' root = read host root) := by
  refine ⟨?_, ?_, ?_, ?_⟩
  case refine_1 =>
    exact ⟨workspaces host root, _, pairwise_workspaces host root, workspaces_perm host root,
      selects_filterMap (fun _ _ => readConfig_eq_some_iff) _, read_eq host root⟩
  case refine_2 => exact fun _ => forall_not_gives_iff
  case refine_3 => exact fun _ halike => read_alike halike fun _ _ => trivial
  case refine_4 =>
    rintro ⟨name, hname, hworkspace⟩ host' halike
    exact read_alike halike fun _ => ne_singleConfig_of_mem_sources hname hworkspace

/-- A host whose directories all have these names and a configuration, most of them an empty one. -/
def agentHost (names : List String) (configs : List (String × List UInt8)) (single : List UInt8) :
    Host where
  read path := .ok (if path = singleConfig "/" then single else (configs.lookup path).getD [])
  isPresent _ := true
  isRegularFile _ := true
  list _ := .ok names
  run _ := .notStarted .notFound
  jsonRefusal _ := ""

theorem alike_agentHost {names names' : List String} (h : names.Perm names')
    (configs : List (String × List UInt8)) (single single' : List UInt8) :
    Alike (· ≠ singleConfig "/") (agentHost names configs single)
      (agentHost names' configs single') where
  read path hpath := by
    unfold agentHost
    dsimp only
    rw [if_neg hpath, if_neg hpath]
  isRegularFile _ := rfl
  names _ := .listed h

/-- Workspaces that are not in order, between directories that are none. -/
def mixedNames : List String :=
  ["cccccccc-0000-0000-0000-cccccccccccc", "conf", "aaaaaaaa-0000-0000-0000-aaaaaaaaaaaa", "backup",
   "bbbbbbbb-0000-0000-0000-bbbbbbbbbbbb"]

/-- The configuration of the second workspace is no text. -/
def mixedConfigs : List (String × List UInt8) :=
  [("/etc/opt/microsoft/omsagent/aaaaaaaa-0000-0000-0000-aaaaaaaaaaaa/conf/omsadmin.conf",
      "AGENT_GUID= first =b\r\nAGENT_GUID=late".toUTF8.toList),
   ("/etc/opt/microsoft/omsagent/backup/conf/omsadmin.conf", "AGENT_GUID=backup".toUTF8.toList),
   ("/etc/opt/microsoft/omsagent/bbbbbbbb-0000-0000-0000-bbbbbbbbbbbb/conf/omsadmin.conf", [0xFF]),
   ("/etc/opt/microsoft/omsagent/cccccccc-0000-0000-0000-cccccccccccc/conf/omsadmin.conf",
      "AGENT_GUID=last".toUTF8.toList)]

/-- Two of three workspaces have an identifier, and these two are the agent's however the names are
listed and whatever the single configuration holds. -/
theorem discovered_by_name_mixed :
    read (agentHost mixedNames mixedConfigs []) "/" = some (.multiple ["first", "last"]) ∧
      read (agentHost mixedNames.reverse mixedConfigs [0x20]) "/" =
        some (.multiple ["first", "last"]) := by
  have hread : read (agentHost mixedNames mixedConfigs []) "/" =
      some (.multiple ["first", "last"]) := by
    obtain ⟨names, ids, hsorted, hperm, hselects, hread⟩ :=
      (discovered_by_name (agentHost mixedNames mixedConfigs []) "/").1
    have hnames : names = ["aaaaaaaa-0000-0000-0000-aaaaaaaaaaaa",
        "bbbbbbbb-0000-0000-0000-bbbbbbbbbbbb", "cccccccc-0000-0000-0000-cccccccccccc"] := by
      refine List.Perm.eq_of_pairwise' (r := (· ≤ ·)) hsorted (by decide +kernel) ?_
      exact hperm.trans (by decide +kernel)
    have hids := (selects_iff fun _ _ => readConfig_eq_some_iff).mp hselects
    rw [hread, ← hids, hnames]
    decide +kernel
  refine ⟨hread, ?_⟩
  have hsome : ∃ name ∈ listed (agentHost mixedNames mixedConfigs []) "/",
      IsWorkspace (agentHost mixedNames mixedConfigs []) "/" name :=
    ⟨"cccccccc-0000-0000-0000-cccccccccccc", by decide +kernel, by decide +kernel⟩
  refine ((discovered_by_name _ "/").2.2.2 hsome _ ?_).trans hread
  exact alike_agentHost (List.reverse_perm mixedNames).symm mixedConfigs [] [0x20]

end HostGauge.AgentIds
