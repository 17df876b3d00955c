/-!
# Ordered entries

The members of an object, in the order in which their keys first appeared.  Inserting under a key
that is present replaces its value where it stands; any other key goes to the end.
-/

set_option autoImplicit false

namespace JsonQuery

abbrev Entries (α : Type) : Type :=
  List (String × α)

namespace Entries

variable {α β : Type}

def get? (key : String) : Entries α → Option α
  | [] => none
  | (k, v) :: rest => if k = key then some v else get? key rest

/-- Replaces the value under a key, or adds the entry at the end. -/
def insert (key : String) (value : α) : Entries α → Entries α
  | [] => [(key, value)]
  | (k, v) :: rest => if k = key then (k, value) :: rest else (k, v) :: insert key value rest

def insertAll (entries new : Entries α) : Entries α :=
  new.foldl (fun acc entry => insert entry.1 entry.2 acc) entries

/-- The entries of a list in which keys may repeat. -/
def ofList (new : Entries α) : Entries α :=
  insertAll [] new

def keys (entries : Entries α) : List String :=
  entries.map Prod.fst

def values (entries : Entries α) : List α :=
  entries.map Prod.snd

theorem get?_insert_self (key : String) (value : α) (entries : Entries α) :
    get? key (insert key value entries) = some value := by
  induction entries with
  | nil => simp [insert, get?]
  | cons entry rest ih =>
      obtain ⟨k, v⟩ := entry
      by_cases same : k = key
      · simp [insert, get?, same]
      · simp [insert, get?, same, ih]

theorem get?_insert_of_ne {key other : String} (different : other ≠ key) (value : α)
    (entries : Entries α) : get? other (insert key value entries) = get? other entries := by
  induction entries with
  | nil => simp [insert, get?, Ne.symm different]
  | cons entry rest ih =>
      obtain ⟨k, v⟩ := entry
      by_cases same : k = key
      · subst same
        simp [insert, get?, Ne.symm different]
      · simp [insert, get?, same, ih]

theorem keys_insert (key : String) (value : α) (entries : Entries α) :
    keys (insert key value entries) =
      if key ∈ keys entries then keys entries else keys entries ++ [key] := by
  induction entries with
  | nil => simp [insert, keys]
  | cons entry rest ih =>
      obtain ⟨k, v⟩ := entry
      simp only [keys] at ih ⊢
      by_cases same : k = key
      · simp [insert, same]
      · have apart : ¬ key = k := fun h => same h.symm
        by_cases present : key ∈ rest.map Prod.fst
        · simp [insert, same, apart, ih, present]
        · simp [insert, same, apart, ih, present]

theorem nodup_keys_insert {key : String} {value : α} {entries : Entries α}
    (nodup : (keys entries).Nodup) : (keys (insert key value entries)).Nodup := by
  rw [keys_insert]
  split
  · exact nodup
  · rename_i absent
    refine List.nodup_append.mpr ⟨nodup, by simp, fun k held k' new same => absent ?_⟩
    rwa [← List.mem_singleton.mp new, ← same]

theorem insert_of_notMem {key : String} {value : α} {entries : Entries α}
    (absent : key ∉ keys entries) : insert key value entries = entries ++ [(key, value)] := by
  induction entries with
  | nil => rfl
  | cons entry rest ih =>
      obtain ⟨k, v⟩ := entry
      simp only [keys, List.map_cons, List.mem_cons, not_or] at absent
      have different : ¬ k = key := fun same => absent.1 same.symm
      simp only [insert, if_neg different, List.cons_append, ih absent.2]

theorem get?_eq_none_iff {key : String} {entries : Entries α} :
    get? key entries = none ↔ key ∉ keys entries := by
  induction entries with
  | nil => simp [get?, keys]
  | cons entry rest ih =>
      obtain ⟨k, v⟩ := entry
      simp only [get?, keys, List.map_cons, List.mem_cons] at ih ⊢
      by_cases same : k = key
      · simp [same]
      · have apart : ¬ key = k := fun h => same h.symm
        simp [same, apart, ih]

theorem get?_eq_some_iff {key : String} {value : α} {entries : Entries α}
    (nodup : (keys entries).Nodup) : get? key entries = some value ↔ (key, value) ∈ entries := by
  induction entries with
  | nil => simp [get?]
  | cons entry rest ih =>
      obtain ⟨k, v⟩ := entry
      simp only [keys, List.map_cons, List.nodup_cons] at nodup ih
      by_cases same : k = key
      · subst same
        -- the key does not come again, so the first entry is the only candidate
        have once : (k, value) ∉ rest := fun held => nodup.1 (List.mem_map_of_mem held)
        simp [get?, once, eq_comm]
      · have apart : ¬ key = k := fun h => same h.symm
        simp [get?, same, apart, ih nodup.2]

end Entries

end JsonQuery
