import Mathlib

/-! # Hash tables

A hash table seen through its interface: a finite map, together with an
iterator that visits every entry once in an order nobody promises.
-/

namespace Foundation

structure Arrangement (α : Type u) where
  arrange : List α → List α
  perm : ∀ values, (arrange values).Perm values

namespace Arrangement

@[reducible] def stored (α : Type u) : Arrangement α where
  arrange := id
  perm _ := List.Perm.refl _

@[reducible] def backwards (α : Type u) : Arrangement α where
  arrange := List.reverse
  perm := List.reverse_perm

@[simp] theorem mem_arrange (order : Arrangement α) {value : α} {values : List α} :
    value ∈ order.arrange values ↔ value ∈ values :=
  (order.perm values).mem_iff

end Arrangement

abbrev HashTable (Key : Type u) (Value : Type v) := AList fun _ : Key => Value

namespace HashTable

variable {Key : Type u} {Value : Type v} [DecidableEq Key]

def get (table : HashTable Key Value) (key : Key) : Option Value :=
  table.lookup key

def keyExists (table : HashTable Key Value) (key : Key) : Bool :=
  (table.get key).isSome

def set (table : HashTable Key Value) (key : Key) (value : Value) :
    HashTable Key Value :=
  table.insert key value

def del (table : HashTable Key Value) (key : Key) : HashTable Key Value :=
  table.erase key

def values (table : HashTable Key Value) : List Value :=
  table.entries.map Sigma.snd

@[simp] theorem get_empty (key : Key) :
    get (∅ : HashTable Key Value) key = none := by
  simp [get]

@[simp] theorem get_set_self (table : HashTable Key Value) (key : Key)
    (value : Value) : (table.set key value).get key = some value := by
  simp [get, set]

theorem get_set_ne (table : HashTable Key Value) {key other : Key}
    (value : Value) (different : other ≠ key) :
    (table.set key value).get other = table.get other := by
  simp [get, set, AList.lookup_insert_ne different]

theorem get_set (table : HashTable Key Value) (key other : Key) (value : Value) :
    (table.set key value).get other =
      if other = key then some value else table.get other := by
  by_cases equal : other = key
  · subst equal
    simp
  · simp [equal, get_set_ne table value equal]

@[simp] theorem get_del_self (table : HashTable Key Value) (key : Key) :
    (table.del key).get key = none := by
  simp [get, del]

theorem get_del_ne (table : HashTable Key Value) {key other : Key}
    (different : other ≠ key) : (table.del key).get other = table.get other := by
  simp [get, del, AList.lookup_erase_ne different]

theorem get_del (table : HashTable Key Value) (key other : Key) :
    (table.del key).get other = if other = key then none else table.get other := by
  by_cases equal : other = key
  · subst equal
    simp
  · simp [equal, get_del_ne table equal]

theorem keyExists_iff (table : HashTable Key Value) (key : Key) :
    table.keyExists key = true ↔ ∃ value, table.get key = some value := by
  simp [keyExists, Option.isSome_iff_exists]

theorem keyExists_eq_false_iff (table : HashTable Key Value) (key : Key) :
    table.keyExists key = false ↔ table.get key = none := by
  simp [keyExists]

/-! ## Tables that only grow -/

/-- `after` keeps every entry of `before`, and what it has besides is allowed. -/
def GrownBy (allowed : Value → Prop) (before after : HashTable Key Value) : Prop :=
  ∀ key, match before.get key with
    | some value => after.get key = some value
    | none => ∀ value, after.get key = some value → allowed value

theorem GrownBy.refl (allowed : Value → Prop) (table : HashTable Key Value) :
    GrownBy allowed table table := by
  intro key
  cases found : table.get key with
  | some value => rfl
  | none =>
      intro value found'
      cases found'

theorem GrownBy.set {allowed : Value → Prop} {before after : HashTable Key Value}
    (grown : GrownBy allowed before after) {key : Key} {value : Value}
    (fresh : after.get key = none) (ok : allowed value) :
    GrownBy allowed before (after.set key value) := by
  intro other
  have known := grown other
  by_cases same : other = key
  · subst same
    cases found : before.get other with
    | some old =>
        simp only [found] at known
        rw [fresh] at known
        cases known
    | none =>
        intro stored found'
        rw [get_set_self, Option.some.injEq] at found'
        exact found' ▸ ok
  · rw [get_set_ne _ _ same]
    exact known

/-! ## Deleting and listing -/

theorem del_of_get_eq_none (table : HashTable Key Value) {key : Key}
    (absent : table.get key = none) : table.del key = table := by
  apply AList.ext
  have missing : key ∉ table.entries.keys :=
    AList.lookup_eq_none.mp absent
  exact List.kerase_of_notMem_keys missing

theorem mem_values_iff (table : HashTable Key Value) (value : Value) :
    value ∈ table.values ↔ ∃ key, table.get key = some value := by
  constructor
  · intro member
    rcases List.mem_map.mp member with ⟨⟨key, stored⟩, entry, rfl⟩
    exact ⟨key, AList.mem_lookup_iff.mpr entry⟩
  · rintro ⟨key, found⟩
    exact List.mem_map.mpr ⟨⟨key, value⟩, AList.mem_lookup_iff.mp found, rfl⟩

theorem values_del_sublist (table : HashTable Key Value) (key : Key) :
    (table.del key).values.Sublist table.values := by
  have shorter : (table.del key).entries.Sublist table.entries :=
    List.kerase_sublist key table.entries
  exact shorter.map _

theorem values_set_of_get_eq_none (table : HashTable Key Value) {key : Key}
    (absent : table.get key = none) (value : Value) :
    (table.set key value).values = value :: table.values := by
  have missing : key ∉ table := AList.lookup_eq_none.mp absent
  rw [values, set, AList.entries_insert_of_notMem missing, List.map_cons]
  rfl

theorem values_map_nodup (table : HashTable Key Value) (name : Value → Key)
    (named : ∀ key value, table.get key = some value → name value = key) :
    (table.values.map name).Nodup := by
  have sameKeys : table.values.map name = table.keys := by
    rw [values, AList.keys, List.keys, List.map_map]
    apply List.map_congr_left
    rintro ⟨key, value⟩ entry
    exact named key value (AList.mem_lookup_iff.mpr entry)
  rw [sameKeys]
  exact table.keys_nodup

def collect (name : Value → Key) (table : HashTable Key Value)
    (values : List Value) : HashTable Key Value :=
  values.foldl (fun table value => table.set (name value) value) table

theorem get_collect_of_not_mem (name : Value → Key) (table : HashTable Key Value)
    (values : List Value) {key : Key} (fresh : key ∉ values.map name) :
    (collect name table values).get key = table.get key := by
  induction values generalizing table with
  | nil => rfl
  | cons value rest induction =>
      rw [List.map_cons, List.mem_cons, not_or] at fresh
      rw [collect, List.foldl_cons]
      exact (induction _ fresh.2).trans (get_set_ne table value fresh.1)

theorem get_collect_of_mem (name : Value → Key) (table : HashTable Key Value)
    {values : List Value} (distinct : (values.map name).Nodup) {value : Value}
    (member : value ∈ values) :
    (collect name table values).get (name value) = some value := by
  induction values generalizing table with
  | nil => cases member
  | cons head rest induction =>
      rw [List.map_cons, List.nodup_cons] at distinct
      rw [collect, List.foldl_cons]
      rcases List.mem_cons.mp member with rfl | later
      · exact (get_collect_of_not_mem name _ rest distinct.1).trans
          (get_set_self table _ _)
      · exact induction _ distinct.2 later

theorem get_collect_eq_none_iff (name : Value → Key) (table : HashTable Key Value)
    (values : List Value) (key : Key) :
    (collect name table values).get key = none ↔
      key ∉ values.map name ∧ table.get key = none := by
  induction values generalizing table with
  | nil => simp [collect]
  | cons value rest induction =>
      rw [collect, List.foldl_cons, ← collect, induction, get_set, List.map_cons,
        List.mem_cons, not_or]
      by_cases named : key = name value
      · simp [named]
      · simp [named]

/-- Any listing of a table's values, collected again, is the same map. -/
theorem get_collect_of_perm (table : HashTable Key Value) (name : Value → Key)
    (named : ∀ key value, table.get key = some value → name value = key)
    {listing : List Value} (perm : listing.Perm table.values) (key : Key) :
    (collect name ∅ listing).get key = table.get key := by
  have distinct : (listing.map name).Nodup :=
    (perm.map name).nodup_iff.mpr (table.values_map_nodup name named)
  cases found : table.get key with
  | some value =>
      have listed : value ∈ listing :=
        perm.mem_iff.mpr ((table.mem_values_iff value).mpr ⟨key, found⟩)
      rw [← named key value found]
      exact get_collect_of_mem name ∅ distinct listed
  | none =>
      have unlisted : key ∉ listing.map name := by
        intro member
        rcases List.mem_map.mp member with ⟨value, listed, rfl⟩
        rcases (table.mem_values_iff value).mp (perm.mem_iff.mp listed) with
          ⟨stored, found'⟩
        rw [named stored value found'] at found
        simp [found] at found'
      rw [get_collect_of_not_mem name ∅ listing unlisted, get_empty]

end HashTable

end Foundation
