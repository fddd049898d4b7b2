/-!
Tables from names to values, kept in the order in which the names were first inserted. A name
occurs once; `find?` is the view of a table, and each operation has one lemma about it.
-/
namespace HostGauge

structure Table (α : Type) where
  entries : List (String × α) := []
  nodup_keys : (entries.map Prod.fst).Nodup := by exact List.nodup_nil

namespace Table

variable {α : Type}

instance : Inhabited (Table α) := ⟨{}⟩

theorem ext_entries {s t : Table α} (h : s.entries = t.entries) : s = t := by
  cases s; cases t; cases h; rfl

def keys (t : Table α) : List String := t.entries.map Prod.fst

def size (t : Table α) : Nat := t.entries.length

def values (t : Table α) : List α := t.entries.map Prod.snd

def lookupEntry (key : String) : List (String × α) → Option α
  | [] => none
  | (k, v) :: rest => if k = key then some v else lookupEntry key rest

def find? (t : Table α) (key : String) : Option α := lookupEntry key t.entries

/-- Replaces the value of a name that is there, and appends a name that is not. -/
def insertEntry (key : String) (value : α) : List (String × α) → List (String × α)
  | [] => [(key, value)]
  | (k, v) :: rest =>
    if k = key then (key, value) :: rest else (k, v) :: insertEntry key value rest

theorem mem_keys_insertEntry (key : String) (value : α) (es : List (String × α)) (k : String) :
    k ∈ (insertEntry key value es).map Prod.fst ↔ k = key ∨ k ∈ es.map Prod.fst := by
  induction es with
  | nil => simp [insertEntry]
  | cons e rest ih =>
    obtain ⟨k', v⟩ := e
    by_cases h : k' = key
    · subst h; simp [insertEntry]
    · simp only [insertEntry, if_neg h, List.map_cons, List.mem_cons, ih, or_left_comm]

theorem nodup_insertEntry (key : String) (value : α) {es : List (String × α)}
    (h : (es.map Prod.fst).Nodup) : ((insertEntry key value es).map Prod.fst).Nodup := by
  induction es with
  | nil => simp [insertEntry]
  | cons e rest ih =>
    obtain ⟨k', v⟩ := e
    simp only [List.map_cons, List.nodup_cons] at h
    by_cases hk : k' = key
    · subst hk; simpa [insertEntry] using h
    · simp only [insertEntry, if_neg hk, List.map_cons, List.nodup_cons, mem_keys_insertEntry]
      exact ⟨by simpa [hk] using h.1, ih h.2⟩

theorem lookupEntry_insertEntry (key : String) (value : α) (es : List (String × α)) (k : String) :
    lookupEntry k (insertEntry key value es) =
      if k = key then some value else lookupEntry k es := by
  induction es with
  | nil => simp [insertEntry, lookupEntry, @eq_comm _ k]
  | cons e rest ih =>
    obtain ⟨k', v⟩ := e
    by_cases hk : k' = key
    · subst hk
      simp only [insertEntry, if_true, lookupEntry, @eq_comm _ k]
      split <;> rfl
    · simp only [insertEntry, if_neg hk, lookupEntry, ih]
      by_cases h : k' = k
      · subst h; simp [hk]
      · simp [h]

def insert (t : Table α) (key : String) (value : α) : Table α :=
  ⟨insertEntry key value t.entries, nodup_insertEntry key value t.nodup_keys⟩

/-- Inserts the pairs from left to right, so the last value of a name stays. -/
def insertAll (t : Table α) (pairs : List (String × α)) : Table α :=
  pairs.foldl (fun t p => t.insert p.1 p.2) t

def ofList (pairs : List (String × α)) : Table α := insertAll {} pairs

@[simp] theorem find?_empty (key : String) : ({} : Table α).find? key = none := rfl

@[simp] theorem find?_insert (t : Table α) (key : String) (value : α) (k : String) :
    (t.insert key value).find? k = if k = key then some value else t.find? k :=
  lookupEntry_insertEntry key value t.entries k

/-! ### Looking up -/

theorem lookupEntry_append (key : String) (es fs : List (String × α)) :
    lookupEntry key (es ++ fs) = (lookupEntry key es).or (lookupEntry key fs) := by
  induction es with
  | nil => rfl
  | cons e rest ih =>
      simp only [List.cons_append, lookupEntry, ih]
      split <;> rfl

theorem lookupEntry_map {β : Type} (f : β → String × α) (key : String) (xs : List β) :
    lookupEntry key (xs.map f) = (xs.find? fun x => (f x).1 = key).map fun x => (f x).2 := by
  induction xs with
  | nil => rfl
  | cons x rest ih =>
      by_cases h : (f x).1 = key
      · simp [lookupEntry, h]
      · simp [lookupEntry, h, ih]

theorem find?_insertAll (t : Table α) (pairs : List (String × α)) (key : String) :
    (t.insertAll pairs).find? key = (lookupEntry key pairs.reverse).or (t.find? key) := by
  induction pairs generalizing t with
  | nil => rfl
  | cons p rest ih =>
      have htail : (t.insertAll (p :: rest)) = (t.insert p.1 p.2).insertAll rest := rfl
      rw [htail, ih, find?_insert, List.reverse_cons, lookupEntry_append, Option.or_assoc]
      simp only [lookupEntry, @eq_comm _ p.1]
      split <;> rfl

/-- The last value of a name stays. -/
theorem find?_ofList (pairs : List (String × α)) (key : String) :
    (ofList pairs).find? key = lookupEntry key pairs.reverse := by
  rw [ofList, find?_insertAll, find?_empty, Option.or_none]

theorem mem_of_lookupEntry {key : String} {value : α} {es : List (String × α)}
    (h : lookupEntry key es = some value) : (key, value) ∈ es := by
  induction es with
  | nil => cases h
  | cons e rest ih =>
      obtain ⟨k, v⟩ := e
      unfold lookupEntry at h
      split at h
      case isTrue hk =>
        cases h
        rw [hk]
        exact List.mem_cons_self
      case isFalse => exact List.mem_cons_of_mem _ (ih h)

theorem mem_of_find?_ofList {pairs : List (String × α)} {key : String} {value : α}
    (h : (ofList pairs).find? key = some value) : (key, value) ∈ pairs := by
  rw [find?_ofList] at h
  exact List.mem_reverse.mp (mem_of_lookupEntry h)

theorem exists_lookupEntry_of_mem {key : String} {value : α} {es : List (String × α)}
    (h : (key, value) ∈ es) : ∃ v, lookupEntry key es = some v := by
  induction es with
  | nil => cases h
  | cons e rest ih =>
      rw [lookupEntry]
      split
      case isTrue => exact ⟨_, rfl⟩
      case isFalse hkey =>
        rcases List.mem_cons.mp h with rfl | hrest
        · exact absurd rfl hkey
        · exact ih hrest

theorem exists_find?_ofList_of_mem {pairs : List (String × α)} {key : String} (value : α)
    (h : (key, value) ∈ pairs) : ∃ v, (ofList pairs).find? key = some v := by
  rw [find?_ofList]
  exact exists_lookupEntry_of_mem (List.mem_reverse.mpr h)

/-- Inserting what a name already has changes nothing. -/
theorem insertEntry_of_lookupEntry {key : String} {value : α} {es : List (String × α)}
    (h : lookupEntry key es = some value) : insertEntry key value es = es := by
  induction es with
  | nil => cases h
  | cons e rest ih =>
      obtain ⟨k, v⟩ := e
      unfold lookupEntry at h
      unfold insertEntry
      split at h
      case isTrue hk =>
        cases h
        rw [if_pos hk, hk]
      case isFalse hk => rw [if_neg hk, ih h]

theorem insert_of_find? {t : Table α} {key : String} {value : α}
    (h : t.find? key = some value) : t.insert key value = t :=
  ext_entries (insertEntry_of_lookupEntry h)

theorem filter_key_of_nodup (key : String) {es : List (String × α)}
    (h : (es.map Prod.fst).Nodup) :
    es.filter (·.1 = key) = (lookupEntry key es).toList.map fun v => (key, v) := by
  induction es with
  | nil => rfl
  | cons e rest ih =>
      obtain ⟨k, v⟩ := e
      simp only [List.map_cons, List.nodup_cons] at h
      by_cases hk : k = key
      · subst hk
        have hrest : rest.filter (·.1 = k) = [] := by
          rw [List.filter_eq_nil_iff]
          intro e he hke
          exact h.1 (List.mem_map.mpr ⟨e, he, by simpa using hke⟩)
        simp [lookupEntry, hrest]
      · simp [lookupEntry, hk, ih h.2]

/-- The entries of one name: its value, if it has one. -/
theorem filter_key (t : Table α) (key : String) :
    t.entries.filter (·.1 = key) = (t.find? key).toList.map fun v => (key, v) :=
  filter_key_of_nodup key t.nodup_keys

theorem mem_entries_iff (t : Table α) (key : String) (value : α) :
    (key, value) ∈ t.entries ↔ t.find? key = some value := by
  have hmem : (key, value) ∈ t.entries ↔ (key, value) ∈ t.entries.filter (·.1 = key) := by
    simp
  rw [hmem, filter_key]
  simp

/-- What a table holds under its names does not depend on the order of its entries. -/
theorem find?_of_perm {s t : Table α} (h : s.entries.Perm t.entries) : s.find? = t.find? := by
  funext key
  ext value
  rw [← mem_entries_iff, ← mem_entries_iff, h.mem_iff]

/-! ### Changing the values -/

section Map

variable {β : Type}

def map (f : α → β) (t : Table α) : Table β :=
  ⟨t.entries.map (Prod.map id f), by simpa [Function.comp_def] using t.nodup_keys⟩

@[simp] theorem entries_map (f : α → β) (t : Table α) :
    (t.map f).entries = t.entries.map (Prod.map id f) := rfl

theorem lookupEntry_map_snd (f : α → β) (key : String) (es : List (String × α)) :
    lookupEntry key (es.map (Prod.map id f)) = (lookupEntry key es).map f := by
  induction es with
  | nil => rfl
  | cons e rest ih =>
      simp only [List.map_cons, lookupEntry, Prod.map_fst, id_eq, ih]
      split <;> rfl

theorem insertEntry_map_snd (f : α → β) (key : String) (value : α) (es : List (String × α)) :
    insertEntry key (f value) (es.map (Prod.map id f)) =
      (insertEntry key value es).map (Prod.map id f) := by
  induction es with
  | nil => rfl
  | cons e rest ih =>
      simp only [List.map_cons, insertEntry, Prod.map_fst, id_eq, ih]
      split <;> rfl

@[simp] theorem find?_map (f : α → β) (t : Table α) (key : String) :
    (t.map f).find? key = (t.find? key).map f :=
  lookupEntry_map_snd f key t.entries

@[simp] theorem size_map (f : α → β) (t : Table α) : (t.map f).size = t.size :=
  List.length_map _

theorem map_insert (f : α → β) (t : Table α) (key : String) (value : α) :
    (t.insert key value).map f = (t.map f).insert key (f value) :=
  ext_entries (insertEntry_map_snd f key value t.entries).symm

theorem map_insertAll (f : α → β) (t : Table α) (pairs : List (String × α)) :
    (t.insertAll pairs).map f = (t.map f).insertAll (pairs.map (Prod.map id f)) := by
  induction pairs generalizing t with
  | nil => rfl
  | cons p rest ih =>
      have htail : t.insertAll (p :: rest) = (t.insert p.1 p.2).insertAll rest := rfl
      rw [htail, ih, map_insert]
      rfl

theorem map_ofList (f : α → β) (pairs : List (String × α)) :
    (ofList pairs).map f = ofList (pairs.map (Prod.map id f)) :=
  map_insertAll f {} pairs

end Map

end Table

end HostGauge
