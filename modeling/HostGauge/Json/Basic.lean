/-!
JSON values. The members of an object are kept in ascending order of their names, each name
once; `Json.insert` keeps them so.
-/
namespace HostGauge

/-- A number is an integer of 64 bits, signed or unsigned, or a finite float. -/
inductive JsonNumber where
  | integer (n : Int)
  | real (x : Float)
  deriving Repr

inductive Json where
  | null
  | bool (b : Bool)
  | number (n : JsonNumber)
  | string (s : String)
  | array (items : List Json)
  | object (members : List (String × Json))

namespace Json

instance : Inhabited Json := ⟨null⟩

def ofNat (n : Nat) : Json := number (.integer n)

/-- A float; one that is not finite has no number and becomes null. -/
def ofFloat (x : Float) : Json := if x.isFinite then number (.real x) else null

/-- Sets a member, replacing one of the same name. -/
def insert (name : String) (value : Json) : List (String × Json) → List (String × Json)
  | [] => [(name, value)]
  | (n, v) :: rest =>
    if name < n then (name, value) :: (n, v) :: rest
    else if name = n then (name, value) :: rest
    else (n, v) :: insert name value rest

/-- The members given by pairs, of which the last of a name counts. -/
def membersOf (pairs : List (String × Json)) : List (String × Json) :=
  pairs.foldl (fun ms p => insert p.1 p.2 ms) []

/-! ### Members in ascending order -/

/-- Every name stands before the greater ones, so none occurs twice. -/
def Ascending (members : List (String × Json)) : Prop := members.Pairwise fun a b => a.1 < b.1

variable {name : String} {value : Json} {members : List (String × Json)}

theorem eq_or_mem_of_mem_insert {e : String × Json} (h : e ∈ insert name value members) :
    e = (name, value) ∨ e ∈ members := by
  induction members with
  | nil => exact .inl (List.mem_singleton.mp h)
  | cons first rest ih =>
      obtain ⟨n, v⟩ := first
      unfold insert at h
      split at h
      · rcases List.mem_cons.mp h with rfl | hrest
        · exact .inl rfl
        · exact .inr hrest
      · split at h
        · rcases List.mem_cons.mp h with rfl | hrest
          · exact .inl rfl
          · exact .inr (List.mem_cons_of_mem _ hrest)
        · rcases List.mem_cons.mp h with rfl | hrest
          · exact .inr List.mem_cons_self
          · exact (ih hrest).imp_right (List.mem_cons_of_mem _)

theorem Ascending.insert (h : Ascending members) (name : String) (value : Json) :
    Ascending (Json.insert name value members) := by
  induction members with
  | nil => exact List.pairwise_singleton _ _
  | cons first rest ih =>
      obtain ⟨n, v⟩ := first
      obtain ⟨hfirst, hrest⟩ := List.pairwise_cons.mp h
      unfold Json.insert
      split
      case isTrue hlt =>
        refine List.pairwise_cons.mpr ⟨?_, h⟩
        intro e he
        rcases List.mem_cons.mp he with rfl | he
        · exact hlt
        · exact String.lt_trans hlt (hfirst e he)
      case isFalse hlt =>
        split
        case isTrue heq =>
          subst heq
          exact List.pairwise_cons.mpr ⟨hfirst, hrest⟩
        case isFalse hne =>
          refine List.pairwise_cons.mpr ⟨?_, ih hrest⟩
          intro e he
          rcases eq_or_mem_of_mem_insert he with rfl | he
          · exact Std.lt_of_le_of_ne (String.not_lt.mp hlt) (Ne.symm hne)
          · exact hfirst e he

theorem ascending_membersOf (pairs : List (String × Json)) : Ascending (membersOf pairs) := by
  have hfold : ∀ {members : List (String × Json)}, Ascending members →
      Ascending (pairs.foldl (fun ms p => insert p.1 p.2 ms) members) := by
    induction pairs with
    | nil => exact id
    | cons p rest ih =>
        intro members h
        exact ih (h.insert p.1 p.2)
  exact hfold List.Pairwise.nil

theorem filter_eq_nil_of_lt (h : ∀ e ∈ members, name < e.1) :
    members.filter (·.1 = name) = [] := by
  rw [List.filter_eq_nil_iff]
  intro e he hname
  have hlt := h e he
  rw [of_decide_eq_true hname] at hlt
  exact String.lt_irrefl name hlt

/-- A member that is set is the only one of its name. -/
theorem Ascending.filter_insert (h : Ascending members) (name : String) (value : Json) :
    (Json.insert name value members).filter (·.1 = name) = [(name, value)] := by
  induction members with
  | nil => simp [Json.insert]
  | cons first rest ih =>
      obtain ⟨n, v⟩ := first
      obtain ⟨hfirst, hrest⟩ := List.pairwise_cons.mp h
      unfold Json.insert
      split
      case isTrue hlt =>
        have hgreater : ∀ e ∈ (n, v) :: rest, name < e.1 := by
          intro e he
          rcases List.mem_cons.mp he with rfl | he
          · exact hlt
          · exact String.lt_trans hlt (hfirst e he)
        rw [List.filter_cons_of_pos (by simp), filter_eq_nil_of_lt hgreater]
      case isFalse =>
        split
        case isTrue heq =>
          subst heq
          rw [List.filter_cons_of_pos (by simp), filter_eq_nil_of_lt hfirst]
        case isFalse hne =>
          rw [List.filter_cons_of_neg (by simpa using Ne.symm hne), ih hrest]

end Json

end HostGauge
