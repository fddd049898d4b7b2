import HostGauge.Host.Tree
import HostGauge.Proofs.Host.Path

/-!
What is there behind a directory and a name. The path of a directory is followed first and the name
from the place that it leads to, so there is something at the path of both exactly if the directory
lists the name.
-/
namespace HostGauge.Tree

/-- One part of a path, which leads down. -/
structure IsName (name : String) : Prop where
  ne_empty : name ≠ ""
  ne_stay : name ≠ "."
  ne_up : name ≠ ".."
  noSeparator : '/' ∉ name.toList
  noNul : '\x00' ∉ name.toList
  short : name.utf8ByteSize ≤ longestPart

variable {t : Tree} {place : List String} {name dir : String}

theorem follow_append (t : Tree) (place first second : List String) :
    t.follow place (first ++ second) =
      (t.follow place first).bind fun found => t.follow found.1 second := by
  induction first generalizing place with
  | nil =>
      rw [List.nil_append, follow]
      cases hplace : t.entry? place with
      | some entry => rfl
      | none => cases second <;> simp only [follow, hplace] <;> rfl
  | cons part rest ih =>
      rw [List.cons_append, follow, follow]
      cases hplace : t.entry? place with
      | none => rfl
      | some entry =>
          cases entry with
          | directory =>
              dsimp only
              split_ifs
              · exact ih place
              · exact ih place.dropLast
              · rfl
              · exact ih (place ++ [part])
          | file bytes executable => rfl
          | utility cases executable => rfl

/-- An empty part stays in place. -/
theorem follow_empty (t : Tree) (place : List String) (part : String) (rest : List String) :
    t.follow place ("" :: part :: rest) = t.follow place (part :: rest) := by
  rw [follow]
  cases hplace : t.entry? place with
  | none => simp only [follow, hplace]
  | some entry => cases entry <;> simp [follow, hplace]

theorem follow_name (hplace : t.entry? place = some .directory) (hname : IsName name) :
    t.follow place [name] = t.follow (place ++ [name]) [] := by
  rw [follow.eq_2, hplace]
  simp only [hname.ne_empty, hname.ne_stay, hname.ne_up, decide_false, Bool.or_self,
    Bool.false_eq_true, if_false, Nat.not_lt.mpr hname.short]

theorem parts_separated (before : List Char) {last : List Char} (hlast : '/' ∉ last) :
    parts (String.ofList (before ++ '/' :: last)) =
      parts (String.ofList before) ++ [String.ofList last] := by
  simp only [parts, String.toList_ofList, List.splitOn_append_cons_self,
    List.splitOn_eq_singleton hlast, List.map_append, List.map_singleton]

theorem size_le_join (hname : Path.isAbsolute name = false) :
    dir.utf8ByteSize ≤ (Path.join dir name).utf8ByteSize := by
  unfold Path.join
  rw [if_neg (by rw [hname]; exact Bool.false_ne_true)]
  split
  case isTrue =>
    rw [String.utf8ByteSize_append]
    omega
  case isFalse =>
    rw [String.utf8ByteSize_append, String.utf8ByteSize_append]
    omega

/-- A path is followed to the directory, and from there by the name. -/
theorem locate_join (hdir : dir ≠ "") (hname : IsName name)
    (hlong : (Path.join dir name).utf8ByteSize ≤ longestPath) :
    t.locate (Path.join dir name) =
      (t.locate dir).bind fun found => t.follow found.1 [name] := by
  have hrelative : Path.isAbsolute name = false := by
    rw [Path.isAbsolute, decide_eq_false_iff_not]
    intro hhead
    exact hname.noSeparator (List.mem_of_mem_head? hhead)
  have hsize : dir.utf8ByteSize ≤ longestPath := (size_le_join hrelative).trans hlong
  rcases Path.join_cases dir hrelative with ⟨hempty, -⟩ | ⟨before, hjoin, hbefore⟩
  · exact absurd hempty hdir
  have hjoin' : Path.join dir name = String.ofList (before ++ '/' :: name.toList) := by
    rw [← hjoin, String.ofList_toList]
  have hparts : parts (Path.join dir name) = parts (String.ofList before) ++ [name] := by
    rw [hjoin', parts_separated before hname.noSeparator, String.ofList_toList]
  have hnul : (Path.join dir name).toList.contains '\x00' = dir.toList.contains '\x00' := by
    rw [Bool.eq_iff_iff, List.contains_iff_mem, List.contains_iff_mem, hjoin]
    rcases hbefore with hbefore | ⟨hbefore, -⟩ <;> simp [hbefore, hname.noNul]
  have hne : (Path.join dir name).isEmpty = false := by
    rw [hjoin']
    simp
  have hne' : dir.isEmpty = false := by simpa using hdir
  unfold locate
  rw [hnul, hne, hne', if_neg Bool.false_ne_true, if_neg Bool.false_ne_true,
    if_neg (Nat.not_lt.mpr hlong), if_neg (Nat.not_lt.mpr hsize), hparts, follow_append]
  split
  case isTrue => rfl
  case isFalse =>
    rcases hbefore with hbefore | ⟨hbefore, -⟩
    · -- the separator at the end of the directory is an empty part, which stays in place
      have hdirectory : parts dir = parts (String.ofList before) ++ [""] := by
        rw [← String.ofList_toList (s := dir), hbefore, parts_separated before List.not_mem_nil]
      rw [hdirectory, follow_append]
      cases t.follow [] (parts (String.ofList before)) with
      | error cause => rfl
      | ok found =>
          have hstay := follow_append t found.1 [""] [name]
          exact ((follow_empty t found.1 name []).symm.trans hstay)
    · rw [← hbefore, String.ofList_toList]

theorem entry?_of_locate {path : String} {entry : TreeEntry}
    (h : t.locate path = .ok (place, entry)) : t.entry? place = some entry := by
  have hfollow : ∀ (route start : List String), t.follow start route = .ok (place, entry) →
      t.entry? place = some entry := by
    intro route
    induction route with
    | nil =>
        intro start hstart
        rw [follow] at hstart
        cases hentry : t.entry? start with
        | none =>
            rw [hentry] at hstart
            cases hstart
        | some found =>
            rw [hentry] at hstart
            cases hstart
            exact hentry
    | cons part rest ih =>
        intro start hstart
        rw [follow.eq_2] at hstart
        split at hstart
        next => cases hstart
        next =>
          split_ifs at hstart
          · exact ih start hstart
          · exact ih start.dropLast hstart
          · exact ih (start ++ [part]) hstart
        next => cases hstart
  unfold locate at h
  split_ifs at h
  exact hfollow _ _ h

theorem mem_namesBelow_iff :
    name ∈ t.namesBelow place ↔ ∃ entry, t.entry? (place ++ [name]) = some entry := by
  have hkey : (place ++ [name]).isEmpty = false := by simp
  rw [ entry?, hkey, if_neg Bool.false_ne_true, namesBelow, List.mem_filterMap,
    ← Option.isSome_iff_exists, List.lookup_isSome_iff]
  refine exists_congr fun e => and_congr_right fun _ => ?_
  rw [Option.ite_none_right_eq_some, beq_iff_eq]
  constructor
  · rintro ⟨hplace, hlast⟩
    rw [← hplace]
    exact List.dropLast_append_getLast? _ hlast
  · intro hkey
    rw [← hkey]
    simp

/-- There is something at the path of a directory and a name if the directory lists the name. -/
theorem isPresent_join_iff (hdir : dir ≠ "") (hname : IsName name)
    (hlong : (Path.join dir name).utf8ByteSize ≤ longestPath) :
    t.host.isPresent (Path.join dir name) ↔
      ∃ names, t.host.list dir = .ok names ∧ name ∈ names := by
  have hpresent : t.host.isPresent = t.isPresent := rfl
  have hlist : t.host.list = t.list := rfl
  rw [hpresent, hlist, isPresent, list, locate_join hdir hname hlong]
  cases hlocate : t.locate dir with
  | error cause => simp [Except.bind]
  | ok found =>
      obtain ⟨place, entry⟩ := found
      have hentry := entry?_of_locate hlocate
      cases entry with
      | directory =>
          have hstep := (follow_name hentry hname).trans (follow.eq_1 t (place ++ [name]))
          simp only [Except.bind, hstep, Except.ok.injEq, exists_eq_left', mem_namesBelow_iff]
          cases t.entry? (place ++ [name]) <;> simp
      | file bytes executable => simp [Except.bind, follow, hentry]
      | utility cases executable => simp [Except.bind, follow, hentry]

end HostGauge.Tree
