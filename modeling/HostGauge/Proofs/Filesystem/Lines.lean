import HostGauge.Filesystem
import HostGauge.Proofs.Numeral
import HostGauge.Proofs.Selection
import HostGauge.Proofs.Text.Field
import HostGauge.Proofs.Text.Line

/-!
The records of mounted filesystems, by the lines that show them. A text is read as the records
that its lines show, in their order; records that are written one to a line are read back.
-/
namespace HostGauge.Filesystem

open Text (IsWord Spaced)

variable {line type device mountPoint size free : List Char} {fs : Filesystem}

def IsType (type : List Char) : Prop :=
  type = "ext2".toList ∨ type = "ext3".toList ∨ type = "ext4".toList

/-- A line of five fields: a type of the ext family, a device below `/dev/`, an absolute mount
point, and runs of digits for a size that is not zero and for the free space. -/
inductive Shows (line : List Char) (fs : Filesystem) : Prop
  | intro {type size free : List Char}
      (hfields : Spaced [type, fs.device.toList, fs.mountPoint.toList, size, free] line)
      (htype : IsType type) (hdevice : "/dev/".toList <+: fs.device.toList)
      (hmount : ['/'] <+: fs.mountPoint.toList) (hsize : Numeral.Denotes size fs.size)
      (hnonzero : fs.size ≠ 0) (hfree : Numeral.Denotes free fs.free)

theorem mem_types_iff : String.ofList type ∈ types ↔ IsType type := by
  simp only [types, List.mem_cons, List.not_mem_nil, or_false, IsType,
    ← String.toList_inj, String.toList_ofList]

theorem ofFields?_eq_some_iff : ofFields? device mountPoint size free = some fs ↔
    (fs.device.toList = device ∧ fs.mountPoint.toList = mountPoint) ∧
      "/dev/".toList <+: device ∧ ['/'] <+: mountPoint ∧ Numeral.Denotes size fs.size ∧
        fs.size ≠ 0 ∧ Numeral.Denotes free fs.free := by
  rw [← Numeral.decimal64?_eq_some_iff, ← Numeral.decimal64?_eq_some_iff,
    ← List.isPrefixOf_iff_prefix, ← List.isPrefixOf_iff_prefix]
  unfold ofFields?
  constructor
  · intro h
    split at h
    case isTrue hpaths =>
      split at h
      case h_1 bytes rest hbytes hrest =>
        rw [Option.ite_none_left_eq_some] at h
        obtain ⟨hnonzero, h⟩ := h
        cases h
        obtain ⟨hdevice, hmount⟩ := Bool.and_eq_true_iff.mp hpaths
        exact ⟨⟨String.toList_ofList, String.toList_ofList⟩, hdevice, hmount, hbytes, hnonzero,
          hrest⟩
      case h_2 => cases h
    case isFalse => cases h
  · rintro ⟨⟨rfl, rfl⟩, hdevice, hmount, hsize, hnonzero, hfree⟩
    rw [hdevice, hmount, hsize, hfree]
    simp only [Bool.and_self, if_true, if_neg hnonzero, String.ofList_toList]

theorem ofLine?_eq_some_iff : ofLine? line = some fs ↔ Shows line fs := by
  unfold ofLine?
  constructor
  · intro h
    split at h
    case h_1 type device mountPoint size free hfields =>
      split at h
      case isTrue htype =>
        obtain ⟨⟨hdevice, hmount⟩, hbelow, habsolute, hsize, hnonzero, hfree⟩ :=
          ofFields?_eq_some_iff.mp h
        rw [← hdevice] at hbelow
        rw [← hmount] at habsolute
        rw [← hdevice, ← hmount] at hfields
        exact ⟨Text.fields_eq_iff.mp hfields, mem_types_iff.mp htype, hbelow, habsolute, hsize,
          hnonzero, hfree⟩
      case isFalse => cases h
    case h_2 => cases h
  · rintro ⟨hfields, htype, hdevice, hmount, hsize, hnonzero, hfree⟩
    rw [hfields.fields]
    dsimp only
    rw [if_pos (mem_types_iff.mpr htype)]
    exact ofFields?_eq_some_iff.mpr ⟨⟨rfl, rfl⟩, hdevice, hmount, hsize, hnonzero, hfree⟩

/-- A text is read as the records that its lines show, in their order. -/
theorem parse_eq_iff {text : List Char} {records : List Filesystem} :
    parse text = records ↔ Selects Shows (Text.lines text) records :=
  (selects_iff fun _ _ => ofLine?_eq_some_iff).symm

theorem size_ne_zero_of_mem_parse {text : List Char} (h : fs ∈ parse text) : fs.size ≠ 0 := by
  obtain ⟨line, -, hline⟩ := List.mem_filterMap.mp h
  obtain ⟨-, -, -, -, -, hnonzero, -⟩ := ofLine?_eq_some_iff.mp hline
  exact hnonzero

/-! ### Writing records -/

/-- A record that a line can show. -/
structure IsWritable (fs : Filesystem) : Prop where
  isWord_device : IsWord fs.device.toList
  isWord_mountPoint : IsWord fs.mountPoint.toList
  device : "/dev/".toList <+: fs.device.toList
  mountPoint : ['/'] <+: fs.mountPoint.toList
  nonzero : fs.size ≠ 0

def words (type : List Char) (fs : Filesystem) : List (List Char) :=
  [type, fs.device.toList, fs.mountPoint.toList, Numeral.write fs.size.toNat,
    Numeral.write fs.free.toNat]

/-- Records with their types, one to a line. -/
def write (entries : List (List Char × Filesystem)) : List Char :=
  entries.flatMap fun e => [' '].intercalate (words e.1 e.2) ++ ['\n']

theorem isWord_write (n : ℕ) : IsWord (Numeral.write n) where
  ne_nil := (Numeral.isDigits_write n).1
  solid := fun _ hc => Text.isBlank_of_isDigit ((Numeral.isDigits_write n).2 _ hc)

theorem isWord_of_isType (h : IsType type) : IsWord type := by
  rcases h with rfl | rfl | rfl <;> decide

theorem isWord_of_mem_words (htype : IsType type) (h : fs.IsWritable) :
    ∀ word ∈ words type fs, IsWord word := by
  intro word hword
  simp only [words, List.mem_cons, List.not_mem_nil, or_false] at hword
  rcases hword with rfl | rfl | rfl | rfl | rfl
  · exact isWord_of_isType htype
  · exact h.isWord_device
  · exact h.isWord_mountPoint
  · exact isWord_write _
  · exact isWord_write _

theorem shows_words (htype : IsType type) (h : fs.IsWritable) :
    Shows ([' '].intercalate (words type fs)) fs :=
  ⟨Text.spaced_intercalate (isWord_of_mem_words htype h), htype, h.device, h.mountPoint,
    Numeral.denotes_write _, h.nonzero, Numeral.denotes_write _⟩

theorem newline_not_mem_words (htype : IsType type) (h : fs.IsWritable) :
    '\n' ∉ [' '].intercalate (words type fs) := by
  intro hmem
  rcases Text.eq_or_mem_of_mem_intercalate hmem with hspace | ⟨word, hword, hfeed⟩
  · cases hspace
  · have hblank := (isWord_of_mem_words htype h word hword).solid _ hfeed
    cases hblank

theorem ofLine?_return (line : List Char) : ofLine? (line ++ ['\r']) = ofLine? line := by
  unfold ofLine?
  rw [Text.fields_return]

theorem parse_write {entries : List (List Char × Filesystem)}
    (h : ∀ e ∈ entries, IsType e.1 ∧ e.2.IsWritable) :
    parse (write entries) = entries.map Prod.snd := by
  induction entries with
  | nil => rfl
  | cons e entries ih =>
      obtain ⟨htype, hwritable⟩ := h e List.mem_cons_self
      have hmore := ih fun e he => h e (List.mem_cons_of_mem _ he)
      have hfirst := ofLine?_eq_some_iff.mpr (shows_words htype hwritable)
      have hrest : write (e :: entries) =
          [' '].intercalate (words e.1 e.2) ++ '\n' :: write entries := by
        unfold write
        rw [List.flatMap_cons, List.append_assoc]
        rfl
      unfold parse at hmore ⊢
      rw [hrest, Text.filterMap_lines_ended rfl ofLine?_return
        (newline_not_mem_words htype hwritable) (.feed _), hfirst, hmore]
      rfl

end HostGauge.Filesystem
