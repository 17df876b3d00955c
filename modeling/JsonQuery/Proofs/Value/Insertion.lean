import JsonQuery.Entries
import Mathlib

/-!
# Insertion of entries in turn

A key stays where it came first and has the value that it got last.  So what is built from a list of
entries is told by the list alone, and building it in parts makes no difference.
-/

set_option autoImplicit false

namespace JsonQuery

namespace Entries

variable {α : Type} {a b : Entries α} {k l : String} {v w : α}

theorem insert_insert (k : String) (v w : α) (a : Entries α) :
    insert k v (insert k w a) = insert k v a := by
  induction a with
  | nil => simp only [insert, if_true]
  | cons entry rest ih =>
      obtain ⟨l, u⟩ := entry
      rw [insert, insert]
      split
      · rename_i same
        rw [insert, if_pos same]
      · rename_i apart
        rw [insert, if_neg apart, ih]

/-- Replacing the value of a key that is present changes no place. -/
theorem insert_comm (present : k ∈ keys a) (apart : k ≠ l) :
    insert k v (insert l w a) = insert l w (insert k v a) := by
  induction a with
  | nil => cases present
  | cons entry rest ih =>
      obtain ⟨m, u⟩ := entry
      by_cases first : m = k
      · subst first
        rw [insert, if_neg apart, insert, if_pos rfl, insert, if_pos rfl, insert, if_neg apart]
      · have later : k ∈ keys rest := (List.mem_cons.mp present).resolve_left (Ne.symm first)
        by_cases second : m = l
        · simp only [insert, if_pos second, if_neg first]
        · simp only [insert, if_neg first, if_neg second, ih later]

theorem mem_keys_insert : l ∈ keys (insert k v a) ↔ l = k ∨ l ∈ keys a := by
  rw [keys_insert]
  split
  · rename_i present
    refine ⟨.inr, ?_⟩
    rintro (rfl | found)
    · exact present
    · exact found
  · rw [List.mem_append, List.mem_singleton, or_comm]

theorem insert_of_mem (nodup : (keys a).Nodup) (found : (k, v) ∈ a) : insert k v a = a := by
  induction a with
  | nil => cases found
  | cons entry rest ih =>
      obtain ⟨l, w⟩ := entry
      simp only [keys, List.map_cons, List.nodup_cons] at nodup
      rcases List.mem_cons.mp found with here | later
      · cases here
        rw [insert, if_pos rfl]
      · have apart : l ≠ k := by
          rintro rfl
          exact nodup.1 (List.mem_map_of_mem later)
        rw [insert, if_neg apart, ih nodup.2 later]

/-! ## Insertion of entries in turn -/

theorem insertAll_cons (a : Entries α) (entry : String × α) (new : Entries α) :
    insertAll a (entry :: new) = insertAll (insert entry.1 entry.2 a) new :=
  rfl

theorem insertAll_append (a b c : Entries α) :
    insertAll a (b ++ c) = insertAll (insertAll a b) c :=
  List.foldl_append

theorem insert_insertAll (present : k ∈ keys a) (absent : k ∉ keys b) :
    insert k v (insertAll a b) = insertAll (insert k v a) b := by
  induction b generalizing a with
  | nil => rfl
  | cons entry rest ih =>
      simp only [keys, List.map_cons, List.mem_cons, not_or] at absent
      rw [insertAll_cons, insertAll_cons, ih (mem_keys_insert.mpr (.inr present)) absent.2,
        insert_comm present absent.1]

/-- The last entry of a built object may as well be inserted into what the object is inserted
into. -/
theorem insertAll_insert (nodup : (keys b).Nodup) :
    insertAll a (insert k v b) = insert k v (insertAll a b) := by
  induction b generalizing a with
  | nil => rfl
  | cons entry rest ih =>
      obtain ⟨l, w⟩ := entry
      simp only [keys, List.map_cons, List.nodup_cons] at nodup
      rw [insert]
      split
      · rename_i same
        subst same
        have present : l ∈ keys (insert l w a) := mem_keys_insert.mpr (.inl rfl)
        rw [insertAll_cons, insertAll_cons, insert_insertAll present nodup.1, insert_insert]
      · rw [insertAll_cons, insertAll_cons, ih nodup.2]

theorem nodup_keys_insertAll (nodup : (keys a).Nodup) (new : Entries α) :
    (keys (insertAll a new)).Nodup := by
  induction new generalizing a with
  | nil => exact nodup
  | cons entry rest ih => exact ih (nodup_keys_insert nodup)

theorem nodup_keys_ofList (new : Entries α) : (keys (ofList new)).Nodup :=
  nodup_keys_insertAll (a := []) List.nodup_nil new

/-- Inserting an object that was built from a list is inserting the list. -/
theorem insertAll_ofList (a new : Entries α) : insertAll a (ofList new) = insertAll a new := by
  induction new using List.reverseRecOn with
  | nil => rfl
  | append_singleton new entry ih =>
      have built : ofList (new ++ [entry]) = insert entry.1 entry.2 (ofList new) :=
        insertAll_append [] new [entry]
      rw [built, insertAll_insert (nodup_keys_ofList new), ih, insertAll_append]
      rfl

theorem insertAll_of_disjoint (apart : ∀ k ∈ keys b, k ∉ keys a) (nodup : (keys b).Nodup) :
    insertAll a b = a ++ b := by
  induction b generalizing a with
  | nil => exact (List.append_nil a).symm
  | cons entry rest ih =>
      obtain ⟨k, v⟩ := entry
      simp only [keys, List.map_cons, List.nodup_cons, List.forall_mem_cons] at apart nodup
      have later : ∀ l ∈ keys rest, l ∉ keys (insert k v a) := by
        intro l found present
        rcases mem_keys_insert.mp present with rfl | before
        · exact nodup.1 found
        · exact apart.2 l found before
      rw [insertAll_cons, ih later nodup.2, insert_of_notMem apart.1, List.append_assoc]
      rfl

theorem ofList_eq_self (nodup : (keys a).Nodup) : ofList a = a :=
  insertAll_of_disjoint (fun _ _ => List.not_mem_nil) nodup

theorem insertAll_of_subset (nodup : (keys a).Nodup) (inside : ∀ entry ∈ b, entry ∈ a) :
    insertAll a b = a := by
  induction b with
  | nil => rfl
  | cons entry rest ih =>
      rw [insertAll_cons, insert_of_mem nodup (inside entry List.mem_cons_self)]
      exact ih fun other found => inside other (List.mem_cons_of_mem entry found)

theorem ofList_append (a b : Entries α) : ofList (a ++ b) = insertAll (ofList a) b :=
  insertAll_append [] a b

theorem ofList_append_left (a b : Entries α) : ofList (ofList a ++ b) = ofList (a ++ b) := by
  rw [ofList_append, ofList_append, ofList_eq_self (nodup_keys_ofList a)]

theorem ofList_append_right (a b : Entries α) : ofList (a ++ ofList b) = ofList (a ++ b) := by
  rw [ofList_append, ofList_append, insertAll_ofList]

theorem ofList_append_self (nodup : (keys a).Nodup) : ofList (a ++ a) = a := by
  rw [ofList_append, ofList_eq_self nodup, insertAll_of_subset nodup fun _ => id]

/-! ## Keys and values of what is built -/

theorem eraseDups_of_nodup {ks : List String} (nodup : ks.Nodup) : ks.eraseDups = ks := by
  induction ks with
  | nil => exact List.eraseDups_nil
  | cons k rest ih =>
      obtain ⟨absent, others⟩ := List.nodup_cons.mp nodup
      have kept : rest.filter (fun l => !l == k) = rest := by
        refine List.filter_eq_self.mpr fun l found => ?_
        have apart : l ≠ k := fun same => absent (same ▸ found)
        simpa using apart
      rw [List.eraseDups_cons, kept, ih others]

/-- Keys stand in the order in which they come first. -/
theorem keys_insertAll (nodup : (keys a).Nodup) (new : Entries α) :
    keys (insertAll a new) = (keys a ++ keys new).eraseDups := by
  induction new generalizing a with
  | nil => exact ((congrArg _ (List.append_nil _)).trans (eraseDups_of_nodup nodup)).symm
  | cons entry rest ih =>
      rw [insertAll_cons, ih (nodup_keys_insert nodup), keys_insert]
      split
      · rename_i present
        have skipped : (keys (entry :: rest)).removeAll (keys a) =
            (keys rest).removeAll (keys a) := by
          rw [keys, List.map_cons, List.cons_removeAll, if_neg (by simpa using present)]
          rfl
        rw [List.eraseDups_append, List.eraseDups_append, skipped]
      · rw [List.append_assoc]
        rfl

theorem get?_append (k : String) (a b : Entries α) :
    get? k (a ++ b) = (get? k a).or (get? k b) := by
  induction a with
  | nil => rfl
  | cons entry rest ih =>
      rw [List.cons_append, get?, get?]
      split
      · rfl
      · exact ih

/-- A key has the value of the last entry for it. -/
theorem get?_insertAll (k : String) (a new : Entries α) :
    get? k (insertAll a new) = (get? k new.reverse).or (get? k a) := by
  induction new using List.reverseRecOn with
  | nil => rfl
  | append_singleton new entry ih =>
      obtain ⟨l, w⟩ := entry
      rw [insertAll_append, List.reverse_append]
      by_cases same : l = k
      · subst same
        have last : get? l (insertAll (insertAll a new) [(l, w)]) = some w :=
          get?_insert_self l w _
        rw [last, List.reverse_singleton, List.singleton_append, get?, if_pos rfl, Option.some_or]
      · have others : get? k (insertAll (insertAll a new) [(l, w)]) = get? k (insertAll a new) :=
          get?_insert_of_ne (Ne.symm same) w _
        rw [others, ih, List.reverse_singleton, List.singleton_append, get?, if_neg same]

theorem get?_reverse (nodup : (keys a).Nodup) (k : String) : get? k a.reverse = get? k a := by
  have nodup' : (keys a.reverse).Nodup := by
    rw [keys, List.map_reverse]
    exact List.nodup_reverse.mpr nodup
  refine Option.ext fun v => ?_
  rw [get?_eq_some_iff nodup, get?_eq_some_iff nodup', List.mem_reverse]

theorem keys_ofList (new : Entries α) : keys (ofList new) = (keys new).eraseDups :=
  keys_insertAll (a := []) List.nodup_nil new

theorem get?_ofList (k : String) (new : Entries α) : get? k (ofList new) = get? k new.reverse := by
  rw [ofList, get?_insertAll, get?, Option.or_none]

theorem get?_flatten_reverse {objects : List (Entries α)}
    (nodup : ∀ o ∈ objects, (keys o).Nodup) (k : String) :
    get? k objects.flatten.reverse = objects.reverse.findSome? (get? k) := by
  induction objects with
  | nil => rfl
  | cons o rest ih =>
      obtain ⟨first, others⟩ := List.forall_mem_cons.mp nodup
      rw [List.flatten_cons, List.reverse_append, get?_append, ih others, get?_reverse first,
        List.reverse_cons, List.findSome?_append, List.findSome?_singleton]

theorem keys_flatten (objects : List (Entries α)) :
    keys objects.flatten = objects.flatMap keys := by
  rw [keys, List.map_flatten, List.flatMap]
  rfl

end Entries

end JsonQuery
