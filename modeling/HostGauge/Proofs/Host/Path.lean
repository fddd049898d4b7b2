import HostGauge.Host.Path
import Mathlib.Data.List.Infix

/-!
Where paths lead once the parts that go up are resolved. What is joined to a directory stays within
it if it is relative and does not go up, or comes back by the names by which it went up; an absolute
path leads elsewhere unless the directory stands in its own beginning.
-/
namespace HostGauge.Path

/-- What a path leads to: names from the top, or from above the place where a relative path
starts. -/
@[ext]
structure Place where
  absolute : Bool
  up : ℕ := 0
  names : List (List Char) := []
  deriving DecidableEq, Repr

namespace Place

/-- Goes up some times, which at the top leads nowhere else. -/
def above (p : Place) (n : ℕ) : Place where
  absolute := p.absolute
  up := if p.absolute then p.up else p.up + (n - p.names.length)
  names := p.names.take (p.names.length - n)

def down (p : Place) (name : List Char) : Place := { p with names := p.names ++ [name] }

def enter (p : Place) (part : List Char) : Place :=
  if part = ['.', '.'] then p.above 1 else p.down part

/-- Goes up as often as a relative place is above its start, and then down by its names. -/
def go (p q : Place) : Place where
  absolute := p.absolute
  up := (p.above q.up).up
  names := (p.above q.up).names ++ q.names

/-- The place is the directory, or below it. -/
structure Within (dir p : Place) : Prop where
  absolute : p.absolute = dir.absolute
  up : p.up = dir.up
  names : dir.names <+: p.names

instance (dir p : Place) : Decidable (dir.Within p) :=
  decidable_of_iff (p.absolute = dir.absolute ∧ p.up = dir.up ∧ dir.names <+: p.names)
    ⟨fun h => ⟨h.1, h.2.1, h.2.2⟩, fun h => ⟨h.absolute, h.up, h.names⟩⟩

/-- A relative way does not go above the start of the directory, and comes back by the names by
which it went up. -/
structure Returns (dir q : Place) : Prop where
  bounded : dir.absolute = true ∨ q.up ≤ dir.names.length
  names : dir.names.drop (dir.names.length - q.up) <+: q.names

/-- What is joined to the directory leads to a place within it. -/
def Admits (dir q : Place) : Prop :=
  (q.absolute = true ∧ dir.Within q) ∨ (q.absolute = false ∧ dir.Returns q)

variable {p q dir : Place}

theorem above_zero (p : Place) : p.above 0 = p := by
  ext1 <;> simp [above]

theorem above_above (p : Place) (m n : ℕ) : (p.above m).above n = p.above (m + n) := by
  have hlength : (p.above m).names.length = p.names.length - m := by
    simp [above]
  refine Place.ext rfl ?_ ?_
  · rw [above, hlength]
    cases hp : p.absolute <;> simp only [above, hp, if_true, Bool.false_eq_true, if_false]
    omega
  · rw [above, hlength]
    simp only [above, List.take_take]
    congr 1
    omega

theorem go_down (p q : Place) (name : List Char) : p.go (q.down name) = (p.go q).down name :=
  Place.ext rfl rfl (List.append_assoc _ _ _).symm

theorem down_above_one (p : Place) (name : List Char) : (p.down name).above 1 = p := by
  ext1 <;> simp [above, down]

theorem go_of_names_eq_nil (p : Place) (h : q.names = []) : p.go q = p.above q.up :=
  Place.ext rfl rfl (by rw [go, h, List.append_nil])

/-- Going up once more goes up from the start, or takes back the last name. -/
theorem go_above_one (p : Place) (hq : q.absolute = false) :
    p.go (q.above 1) = (p.go q).above 1 := by
  rcases List.eq_nil_or_concat q.names with hnames | ⟨names, last, hnames⟩
  · have hup : (q.above 1).up = q.up + 1 := by simp [above, hq, hnames]
    have habove : (q.above 1).names = [] := by simp [above, hnames]
    rw [go_of_names_eq_nil p habove, go_of_names_eq_nil p hnames, above_above, hup]
  · have hdown : q = (⟨q.absolute, q.up, names⟩ : Place).down last :=
      Place.ext rfl rfl (by simpa [down] using hnames)
    rw [hdown, go_down, down_above_one, down_above_one]

theorem go_enter (p : Place) (hq : q.absolute = false) (part : List Char) :
    p.go (q.enter part) = (p.go q).enter part := by
  unfold enter
  split
  · exact go_above_one p hq
  · exact go_down p q part

theorem enter_absolute (p : Place) (part : List Char) :
    (p.enter part).absolute = p.absolute := by
  unfold enter
  split <;> rfl

/-- The names of a directory return after it was left some times, if they are entered again. -/
theorem prefix_take_append_iff (names rest : List (List Char)) (n : ℕ) :
    names <+: names.take n ++ rest ↔ names.drop n <+: rest := by
  have hsplit : names.take n ++ names.drop n <+: names.take n ++ rest ↔ names.drop n <+: rest :=
    List.prefix_append_right_inj (names.take n)
  rwa [List.take_append_drop] at hsplit

theorem within_go_iff (dir q : Place) : dir.Within (dir.go q) ↔ dir.Returns q := by
  have hnames : dir.names <+: (dir.go q).names ↔
      dir.names.drop (dir.names.length - q.up) <+: q.names := prefix_take_append_iff _ _ _
  have hup : (dir.go q).up = dir.up ↔ dir.absolute = true ∨ q.up ≤ dir.names.length := by
    simp only [go, above]
    cases dir.absolute <;> simp [Nat.sub_eq_zero_iff_le]
  constructor
  · intro h
    exact ⟨hup.mp h.up, hnames.mp h.names⟩
  · intro h
    exact ⟨rfl, hup.mpr h.bounded, hnames.mpr h.names⟩

theorem Returns.of_up_eq_zero (dir : Place) (h : q.up = 0) : dir.Returns q where
  bounded := .inr (by rw [h]; exact Nat.zero_le _)
  names := by
    rw [h, Nat.sub_zero, List.drop_length]
    exact List.nil_prefix

end Place

def resolve (path : String) : Place := (parts path).foldl Place.enter ⟨isAbsolute path, 0, []⟩

/-- The path leads to the directory, or below it. -/
def Inside (dir path : String) : Prop := (resolve dir).Within (resolve path)

instance (dir path : String) : Decidable (Inside dir path) :=
  inferInstanceAs (Decidable ((resolve dir).Within (resolve path)))

/-- The path is relative, and does not go above the place where it starts. -/
structure Descends (path : String) : Prop where
  relative : isAbsolute path = false
  up : (resolve path).up = 0

/-! ### Joining -/

variable {base part : String}

theorem absolute_foldl_enter (parts : List (List Char)) (p : Place) :
    (parts.foldl Place.enter p).absolute = p.absolute := by
  induction parts generalizing p with
  | nil => rfl
  | cons part rest ih => rw [List.foldl_cons, ih, Place.enter_absolute]

@[simp] theorem absolute_resolve (path : String) : (resolve path).absolute = isAbsolute path :=
  absolute_foldl_enter _ _

theorem foldl_enter_go (p : Place) (parts : List (List Char)) {q : Place}
    (hq : q.absolute = false) :
    parts.foldl Place.enter (p.go q) = p.go (parts.foldl Place.enter q) := by
  induction parts generalizing q with
  | nil => rfl
  | cons part rest ih =>
      rw [List.foldl_cons, List.foldl_cons, ← Place.go_enter p hq]
      exact ih ((Place.enter_absolute q part).trans hq)

theorem join_of_absolute (h : isAbsolute part = true) : join base part = part := if_pos h

/-- A relative path is joined behind a separator, unless there is nothing to separate. -/
theorem join_cases (base : String) (h : isAbsolute part = false) :
    (base = "" ∧ join base part = part) ∨
      ∃ before, (join base part).toList = before ++ '/' :: part.toList ∧
        (base.toList = before ++ ['/'] ∨ base.toList = before ∧ base ≠ "") := by
  unfold join
  rw [if_neg (by rw [h]; exact Bool.false_ne_true)]
  by_cases hempty : base = ""
  · left
    simp [hempty]
  · right
    have hempty' : base.isEmpty = false := by simpa using hempty
    rw [hempty', Bool.false_or]
    split
    case isTrue hlast =>
      obtain ⟨before, hbefore⟩ := List.getLast?_eq_some_iff.mp (of_decide_eq_true hlast)
      exact ⟨before, by simp [hbefore], .inl hbefore⟩
    case isFalse => exact ⟨base.toList, by simp, .inr ⟨rfl, hempty⟩⟩

/-- A join is as long as its two sides, or longer by the separator. -/
theorem length_join (base : String) (h : isAbsolute part = false) :
    base.length + part.length ≤ (join base part).length ∧
      (join base part).length ≤ base.length + part.length + 1 := by
  rcases join_cases base h with ⟨rfl, hjoin⟩ | ⟨before, hjoin, hbase⟩
  · rw [hjoin, String.length_empty]
    omega
  · have hlength := congrArg List.length hjoin
    rw [String.length_toList, List.length_append, List.length_cons, String.length_toList] at hlength
    rcases hbase with hbase | ⟨hbase, -⟩
    · have hbefore := congrArg List.length hbase
      rw [String.length_toList, List.length_append, List.length_singleton] at hbefore
      omega
    · have hbefore := congrArg List.length hbase
      rw [String.length_toList] at hbefore
      omega

theorem parts_join (base : String) (h : isAbsolute part = false) :
    parts (join base part) = parts base ++ parts part := by
  rcases join_cases base h with ⟨rfl, hjoin⟩ | ⟨before, hjoin, hbase⟩
  · rw [hjoin]
    rfl
  · have hbefore : parts base = (before.splitOn '/').filter fun p => !p.isEmpty && p ≠ ['.'] := by
      unfold parts
      rcases hbase with hbase | ⟨rfl, -⟩
      · rw [hbase, List.splitOn_append_cons_self, List.filter_append]
        exact List.append_nil _
      · rfl
    rw [hbefore, parts, hjoin, List.splitOn_append_cons_self, List.filter_append]
    rfl

theorem isAbsolute_join (base : String) (h : isAbsolute part = false) :
    isAbsolute (join base part) = isAbsolute base := by
  rcases join_cases base h with ⟨rfl, hjoin⟩ | ⟨before, hjoin, hbase⟩
  · rw [hjoin, h]
    rfl
  · unfold isAbsolute
    rw [hjoin]
    rcases hbase with hbase | ⟨rfl, hempty⟩
    · rw [hbase]
      cases before <;> rfl
    · cases hchars : base.toList with
      | nil => exact absurd (String.toList_eq_nil_iff.mp hchars) hempty
      | cons first rest => rfl

/-- What is joined to a directory leads to where its own way leads from there. -/
theorem resolve_join (base : String) (h : isAbsolute part = false) :
    resolve (join base part) = (resolve base).go (resolve part) := by
  have hpart : resolve part = (parts part).foldl Place.enter ⟨false, 0, []⟩ := by rw [resolve, h]
  calc
    resolve (join base part) = (parts part).foldl Place.enter (resolve base) := by
      rw [resolve, parts_join base h, isAbsolute_join base h, List.foldl_append]
      rfl
    _ = (parts part).foldl Place.enter ((resolve base).go ⟨false, 0, []⟩) := by
      rw [Place.go_of_names_eq_nil _ rfl, Place.above_zero]
    _ = (resolve base).go (resolve part) := by rw [foldl_enter_go _ _ rfl, hpart]

theorem resolve_join_assoc (base name : String) (h : isAbsolute part = false) :
    resolve (join (join base name) part) = resolve (join base (join name part)) := by
  have hname := isAbsolute_join name h
  cases habsolute : isAbsolute name with
  | true =>
      rw [habsolute] at hname
      rw [join_of_absolute habsolute, join_of_absolute hname]
  | false =>
      rw [habsolute] at hname
      unfold resolve
      rw [parts_join _ h, parts_join _ habsolute, parts_join _ hname, parts_join _ h,
        isAbsolute_join _ h, isAbsolute_join _ habsolute, isAbsolute_join _ hname,
        List.append_assoc]

theorem inside_join_iff (base part : String) :
    Inside base (join base part) ↔ (resolve base).Admits (resolve part) := by
  unfold Inside Place.Admits
  rw [absolute_resolve]
  cases h : isAbsolute part with
  | true => simp only [join_of_absolute h, reduceCtorEq, true_and, false_and, or_false]
  | false =>
      simp only [resolve_join base h, Place.within_go_iff, reduceCtorEq, true_and, false_and,
        false_or]

theorem Descends.join {path : String} (h : Descends path) (hpart : Descends part) :
    Descends (join path part) where
  relative := (isAbsolute_join path hpart.relative).trans h.relative
  up := by rw [resolve_join path hpart.relative, Place.go, hpart.up, Place.above_zero, h.up]

theorem Descends.admitted (h : Descends part) (dir : Place) : dir.Admits (resolve part) :=
  .inr ⟨(absolute_resolve part).trans h.relative, .of_up_eq_zero dir h.up⟩

end HostGauge.Path
