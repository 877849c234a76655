import Mathlib.Data.List.Induction
import Mathlib.Data.List.Sort
import Mathlib.Data.String.Basic
import SourceLint.SortedTable

/-!
# Tables in order

Putting an entry into a table keeps its keys in order. Tables in order are equal when they have the same
values. So entries with keys of their own make the same table in any order, and related entries make related
tables. Counts may be added table by table in any grouping; a count that is added under a key goes into the sum
of all counts once.
-/

namespace SourceLint.SortedTable

variable {β : Type _} {key : String} {table : SortedTable β}

instance (table : SortedTable β) : Decidable (Ascending table) :=
  inferInstanceAs (Decidable (table.Pairwise fun a b => a.1 < b.1))

@[simp] theorem ascending_nil : Ascending ([] : SortedTable β) := .nil

theorem eq_or_mem_of_mem_insert {value : β} {entry : String × β}
    (h : entry ∈ insert key value table) : entry = (key, value) ∨ entry ∈ table := by
  induction table with
  | nil => exact .inl (List.mem_singleton.1 h)
  | cons first table ih =>
      obtain ⟨k, v⟩ := first
      rw [insert] at h
      split at h
      · exact List.mem_cons.1 h
      · split at h
        · rcases List.mem_cons.1 h with h | h
          · exact .inl h
          · exact .inr (List.mem_cons_of_mem _ h)
        · rcases List.mem_cons.1 h with rfl | h
          · exact .inr List.mem_cons_self
          · rcases ih h with h | h
            · exact .inl h
            · exact .inr (List.mem_cons_of_mem _ h)

/-- Keys stay in order. -/
theorem Ascending.insert (h : Ascending table) (key : String) (value : β) :
    Ascending (insert key value table) := by
  induction table with
  | nil => exact List.pairwise_singleton _ _
  | cons first table ih =>
      obtain ⟨k, v⟩ := first
      obtain ⟨hfirst, hrest⟩ := List.pairwise_cons.1 h
      rw [SortedTable.insert]
      split
      · rename_i hlt
        refine List.pairwise_cons.2 ⟨?_, h⟩
        intro entry hentry
        rcases List.mem_cons.1 hentry with rfl | hentry
        · exact hlt
        · exact lt_trans hlt (hfirst entry hentry)
      · rename_i hle
        split
        · rename_i heq
          subst heq
          exact List.pairwise_cons.2 ⟨hfirst, hrest⟩
        · rename_i hne
          refine List.pairwise_cons.2 ⟨?_, ih hrest⟩
          intro entry hentry
          rcases eq_or_mem_of_mem_insert hentry with rfl | hentry
          · exact lt_of_le_of_ne (not_lt.1 hle) (Ne.symm hne)
          · exact hfirst entry hentry

theorem Ascending.addCount {counts : SortedTable Nat} (h : Ascending counts) (key : String)
    (n : Nat) : Ascending (addCount key n counts) :=
  h.insert _ _

/-! ### Values under keys -/

theorem get?_cons (entry : String × β) (table : SortedTable β) (key : String) :
    get? (entry :: table) key = if entry.1 = key then some entry.2 else get? table key := by
  by_cases h : entry.1 = key
  · simp [get?, h]
  · simp [get?, h]

theorem get?_insert (key : String) (value : β) (table : SortedTable β) (k : String) :
    get? (insert key value table) k = if key = k then some value else get? table k := by
  induction table with
  | nil => exact get?_cons _ _ _
  | cons first table ih =>
      rw [insert]
      split
      · exact get?_cons _ _ _
      · split
        · rename_i heq
          rw [get?_cons, get?_cons, heq]
          split <;> rfl
        · rename_i hne
          rw [get?_cons, get?_cons, ih]
          by_cases hfirst : first.1 = k
          · simp [hfirst, hfirst ▸ hne]
          · simp [hfirst]

theorem Ascending.nodup_keys (h : Ascending table) : (table.map Prod.fst).Nodup := by
  rw [List.Nodup, List.pairwise_map]
  exact h.imp fun hlt => ne_of_lt hlt

theorem get?_eq_some_iff (h : (table.map Prod.fst).Nodup) {value : β} :
    get? table key = some value ↔ (key, value) ∈ table := by
  induction table with
  | nil => simp [get?]
  | cons first table ih =>
      obtain ⟨hfirst, hrest⟩ := List.nodup_cons.1 h
      obtain ⟨k, v⟩ := first
      rw [get?_cons, List.mem_cons, Prod.mk.injEq]
      by_cases hk : k = key
      · have habsent : (key, value) ∉ table :=
          fun hmem => hfirst (List.mem_map.2 ⟨_, hmem, hk.symm⟩)
        simp [hk, habsent, eq_comm]
      · rw [if_neg hk, ih hrest]
        simp [Ne.symm hk]

theorem Ascending.get?_eq_some_iff (h : Ascending table) {value : β} :
    get? table key = some value ↔ (key, value) ∈ table :=
  SortedTable.get?_eq_some_iff h.nodup_keys

/-- A table is known by its entries. -/
theorem Ascending.eq_of_mem_iff {table table' : SortedTable β} (h : Ascending table)
    (h' : Ascending table') (hmem : ∀ entry, entry ∈ table ↔ entry ∈ table') : table = table' := by
  have : Std.Antisymm fun a b : String × β => a.1 < b.1 :=
    ⟨fun _ _ hab hba => absurd hba (lt_asymm hab)⟩
  have : Std.Irrefl fun a b : String × β => a.1 < b.1 := ⟨fun a => lt_irrefl a.1⟩
  exact List.Pairwise.eq_of_mem_iff h h' hmem

/-- A table is known by its values. -/
theorem Ascending.ext {table table' : SortedTable β} (h : Ascending table) (h' : Ascending table')
    (hget : ∀ key, get? table key = get? table' key) : table = table' := by
  apply h.eq_of_mem_iff h'
  intro entry
  rw [← h.get?_eq_some_iff, ← h'.get?_eq_some_iff, hget]

/-- Entries under different keys may be put in one before the other. -/
theorem Ascending.insert_comm (h : Ascending table) {key' : String} (hkey : key ≠ key')
    (value value' : β) :
    SortedTable.insert key value (SortedTable.insert key' value' table) =
      SortedTable.insert key' value' (SortedTable.insert key value table) := by
  apply ((h.insert key' value').insert key value).ext ((h.insert key value).insert key' value')
  intro k
  rw [get?_insert, get?_insert, get?_insert, get?_insert]
  by_cases hk : key = k
  · rw [if_pos hk, if_neg (hk ▸ hkey.symm), if_pos hk]
  · rw [if_neg hk, if_neg hk]

/-- An entry under a new key is put between entries that stay as they are. -/
theorem exists_insert_eq (h : key ∉ table.map Prod.fst) (value : β) :
    ∃ front rest, table = front ++ rest ∧ insert key value table = front ++ (key, value) :: rest := by
  induction table with
  | nil => exact ⟨[], [], rfl, rfl⟩
  | cons first table ih =>
      obtain ⟨k, v⟩ := first
      rw [List.map_cons, List.mem_cons, not_or] at h
      rw [insert]
      split
      · exact ⟨[], _, rfl, rfl⟩
      · obtain ⟨front, rest, htable, hinsert⟩ := ih h.2
        rw [if_neg h.1, hinsert, htable]
        exact ⟨(k, v) :: front, rest, rfl, rfl⟩

/-! ### Tables of entries -/

theorem Ascending.mem_insert_iff (h : Ascending table) {value : β} {entry : String × β} :
    entry ∈ SortedTable.insert key value table ↔ entry = (key, value) ∨ entry ∈ table ∧ entry.1 ≠ key := by
  obtain ⟨k, v⟩ := entry
  rw [← (h.insert key value).get?_eq_some_iff, get?_insert, ← h.get?_eq_some_iff, Prod.mk.injEq]
  by_cases hkey : key = k
  · simp [hkey, eq_comm]
  · simp [hkey, Ne.symm hkey]

theorem ascending_ofEntries (entries : List (String × β)) : Ascending (ofEntries entries) := by
  induction entries using List.reverseRecOn with
  | nil => exact ascending_nil
  | append_singleton entries entry ih =>
      rw [ofEntries, List.foldl_append]
      exact ih.insert entry.1 entry.2

theorem ofEntries_append_singleton (entries : List (String × β)) (entry : String × β) :
    ofEntries (entries ++ [entry]) = insert entry.1 entry.2 (ofEntries entries) := by
  simp [ofEntries]

theorem mem_of_mem_ofEntries {entries : List (String × β)} {entry : String × β}
    (h : entry ∈ ofEntries entries) : entry ∈ entries := by
  induction entries using List.reverseRecOn with
  | nil => exact h
  | append_singleton entries last ih =>
      rw [ofEntries_append_singleton, (ascending_ofEntries entries).mem_insert_iff] at h
      rcases h with rfl | ⟨hmem, -⟩
      · exact List.mem_append_right _ List.mem_cons_self
      · exact List.mem_append_left _ (ih hmem)

/-- An entry whose key does not come again may as well come last. -/
theorem ofEntries_append_cons (front : List (String × β)) (value : β) {rest : List (String × β)}
    (h : key ∉ rest.map Prod.fst) :
    ofEntries (front ++ (key, value) :: rest) = insert key value (ofEntries (front ++ rest)) := by
  induction rest using List.reverseRecOn with
  | nil => rw [ofEntries_append_singleton, List.append_nil]
  | append_singleton rest last ih =>
      rw [List.map_append, List.mem_append, not_or] at h
      obtain ⟨hrest, hlast⟩ := h
      have hne : last.1 ≠ key := fun heq => hlast (heq ▸ List.mem_singleton_self last.1)
      rw [← List.cons_append, ← List.append_assoc, ofEntries_append_singleton, ih hrest,
        ← List.append_assoc, ofEntries_append_singleton, (ascending_ofEntries _).insert_comm hne]

/-- No entry is lost when each has a key of its own. -/
theorem mem_ofEntries_iff {entries : List (String × β)} (h : (entries.map Prod.fst).Nodup)
    {entry : String × β} : entry ∈ ofEntries entries ↔ entry ∈ entries := by
  induction entries using List.reverseRecOn with
  | nil => rfl
  | append_singleton entries last ih =>
      rw [List.map_append, List.nodup_append] at h
      obtain ⟨hentries, -, hlast⟩ := h
      rw [ofEntries_append_singleton, (ascending_ofEntries entries).mem_insert_iff, ih hentries,
        List.mem_append, List.mem_singleton, or_comm]
      refine or_congr_left (and_iff_left_of_imp fun hmem => ?_)
      exact hlast _ (List.mem_map_of_mem hmem) _ (by simp)

/-- A table has its entries in some order when each has a key of its own. -/
theorem perm_ofEntries {entries : List (String × β)} (h : (entries.map Prod.fst).Nodup) :
    (ofEntries entries).Perm entries :=
  (List.perm_ext_iff_of_nodup (ascending_ofEntries entries).nodup_keys.of_map h.of_map).2
    fun _ => mem_ofEntries_iff h

/-- The order in which entries come does not matter. -/
theorem ofEntries_perm {entries entries' : List (String × β)} (h : entries.Perm entries')
    (hdistinct : (entries.map Prod.fst).Nodup) : ofEntries entries = ofEntries entries' := by
  have hdistinct' : (entries'.map Prod.fst).Nodup := (h.map Prod.fst).nodup_iff.1 hdistinct
  apply (ascending_ofEntries entries).eq_of_mem_iff (ascending_ofEntries entries')
  intro entry
  rw [mem_ofEntries_iff hdistinct, mem_ofEntries_iff hdistinct', h.mem_iff]

/-- A table in order is the table of its own entries. -/
theorem Ascending.ofEntries_eq (h : Ascending table) : ofEntries table = table :=
  (ascending_ofEntries table).eq_of_mem_iff h fun _ => mem_ofEntries_iff h.nodup_keys

/-- Leaving out entries by their keys may be done before or after an entry is put in. -/
theorem Ascending.filter_insert (h : Ascending table) (p : String → Bool) (key : String) (value : β) :
    (SortedTable.insert key value table).filter (fun entry => p entry.1) =
      if p key then SortedTable.insert key value (table.filter fun entry => p entry.1)
      else table.filter fun entry => p entry.1 := by
  have hfilter : Ascending (table.filter fun entry => p entry.1) := List.Pairwise.filter _ h
  have hleft : Ascending ((SortedTable.insert key value table).filter fun entry => p entry.1) :=
    List.Pairwise.filter _ (h.insert key value)
  cases hp : p key with
  | true =>
      rw [if_pos rfl]
      apply hleft.eq_of_mem_iff (hfilter.insert key value)
      intro entry
      rw [List.mem_filter, h.mem_insert_iff, hfilter.mem_insert_iff, List.mem_filter, or_and_right,
        and_right_comm]
      exact or_congr_left (and_iff_left_of_imp fun heq => heq ▸ hp)
  | false =>
      rw [if_neg Bool.false_ne_true]
      apply hleft.eq_of_mem_iff hfilter
      intro entry
      rw [List.mem_filter, h.mem_insert_iff, List.mem_filter]
      constructor
      · rintro ⟨rfl | ⟨hmem, -⟩, hentry⟩
        · exact absurd hentry (by simp [hp])
        · exact ⟨hmem, hentry⟩
      · rintro ⟨hmem, hentry⟩
        refine ⟨.inr ⟨hmem, ?_⟩, hentry⟩
        rintro rfl
        rw [hp] at hentry
        cases hentry

theorem filter_ofEntries (p : String → Bool) (entries : List (String × β)) :
    (ofEntries entries).filter (fun entry => p entry.1) =
      ofEntries (entries.filter fun entry => p entry.1) := by
  induction entries using List.reverseRecOn with
  | nil => rfl
  | append_singleton entries entry ih =>
      rw [ofEntries_append_singleton, (ascending_ofEntries entries).filter_insert, ih, List.filter_append]
      cases hp : p entry.1 with
      | true => simp [hp, ofEntries_append_singleton]
      | false => simp [hp]

/-! ### Tables of related values -/

/-- Two tables have the same keys, with related values. -/
def Related {γ : Type _} (R : β → γ → Prop) : SortedTable β → SortedTable γ → Prop :=
  List.Forall₂ fun entry entry' => entry.1 = entry'.1 ∧ R entry.2 entry'.2

namespace Related

variable {γ : Type _} {R : β → γ → Prop} {table' : SortedTable γ}

theorem imp {R' : β → γ → Prop} (h : Related R table table')
    (himp : ∀ value value', R value value' → R' value value') : Related R' table table' :=
  List.Forall₂.imp (fun _ _ hentry => ⟨hentry.1, himp _ _ hentry.2⟩) h

theorem map_fst (h : Related R table table') : table.map Prod.fst = table'.map Prod.fst := by
  induction h with
  | nil => rfl
  | cons hentry _ ih => rw [List.map_cons, List.map_cons, hentry.1, ih]

theorem exists_of_mem (h : Related R table table') {entry' : String × γ} (hentry : entry' ∈ table') :
    ∃ value, (entry'.1, value) ∈ table ∧ R value entry'.2 := by
  induction h with
  | nil => cases hentry
  | @cons first first' table table' hfirst _ ih =>
      rcases List.mem_cons.1 hentry with rfl | hlater
      · exact ⟨first.2, hfirst.1 ▸ List.mem_cons_self, hfirst.2⟩
      · obtain ⟨value, hvalue, hrelated⟩ := ih hlater
        exact ⟨value, List.mem_cons_of_mem _ hvalue, hrelated⟩

theorem insert (h : Related R table table') (key : String) {value : β} {value' : γ}
    (hvalue : R value value') :
    Related R (SortedTable.insert key value table) (SortedTable.insert key value' table') := by
  induction h with
  | nil => exact .cons ⟨rfl, hvalue⟩ .nil
  | @cons entry entry' table table' hentry htable ih =>
      obtain ⟨k, first⟩ := entry
      obtain ⟨k', first'⟩ := entry'
      obtain rfl : k = k' := hentry.1
      rw [SortedTable.insert, SortedTable.insert]
      split
      · exact .cons ⟨rfl, hvalue⟩ (.cons hentry htable)
      · split
        · exact .cons ⟨rfl, hvalue⟩ htable
        · exact .cons hentry ih

theorem ofEntries {entries : List (String × β)} {entries' : List (String × γ)}
    (h : Related R entries entries') :
    Related R (SortedTable.ofEntries entries) (SortedTable.ofEntries entries') := by
  have hfold : ∀ {table table'}, Related R table table' →
      Related R (entries.foldl (fun table entry => SortedTable.insert entry.1 entry.2 table) table)
        (entries'.foldl (fun table entry => SortedTable.insert entry.1 entry.2 table) table') := by
    induction h with
    | nil => exact id
    | @cons entry entry' entries entries' hentry _ ih =>
        intro table table' htable
        obtain ⟨key, value⟩ := entry
        obtain ⟨key', value'⟩ := entry'
        obtain rfl : key = key' := hentry.1
        exact ih (htable.insert key hentry.2)
  exact hfold .nil

theorem get? (h : Related R table table') (key : String) :
    Option.Rel R (SortedTable.get? table key) (SortedTable.get? table' key) := by
  induction h with
  | nil => exact .none
  | cons hentry _ ih =>
      rw [get?_cons, get?_cons, hentry.1]
      split
      · exact .some hentry.2
      · exact ih

end Related

/-! ### Counts -/

theorem Ascending.addCounts {counts : SortedTable Nat} (h : Ascending counts)
    (more : SortedTable Nat) : Ascending (addCounts counts more) := by
  induction more generalizing counts with
  | nil => exact h
  | cons first more ih => exact ih (h.addCount first.1 first.2)

/-- A count under a key of two tables is the sum of the counts under it. -/
theorem get?_addCounts (counts : SortedTable Nat) {more : SortedTable Nat} (h : Ascending more)
    (key : String) :
    get? (addCounts counts more) key = Option.merge (· + ·) (get? counts key) (get? more key) := by
  induction more generalizing counts with
  | nil =>
      have hnone : get? ([] : SortedTable Nat) key = none := rfl
      rw [hnone, addCounts, List.foldl_nil]
      cases get? counts key <;> rfl
  | cons first more ih =>
      obtain ⟨hfirst, hrest⟩ := List.pairwise_cons.1 h
      have hstep := ih (addCount first.1 first.2 counts) hrest
      rw [addCounts, List.foldl_cons, ← addCounts, hstep, addCount, get?_insert, get?_cons]
      by_cases hkey : first.1 = key
      · have habsent : get? more key = none := by
          rw [Option.eq_none_iff_forall_ne_some]
          intro n hn
          exact ne_of_lt (hfirst _ ((Ascending.get?_eq_some_iff hrest).1 hn)) hkey
        rw [if_pos hkey, if_pos hkey, habsent, hkey]
        cases get? counts key <;> simp
      · rw [if_neg hkey, if_neg hkey]

theorem addCounts_nil_left {counts : SortedTable Nat} (h : Ascending counts) :
    addCounts [] counts = counts := by
  refine (ascending_nil.addCounts counts).ext h fun key => ?_
  rw [get?_addCounts [] h]
  cases get? counts key <;> rfl

theorem addCounts_assoc {first second third : SortedTable Nat} (hfirst : Ascending first)
    (hsecond : Ascending second) (hthird : Ascending third) :
    addCounts (addCounts first second) third = addCounts first (addCounts second third) := by
  refine ((hfirst.addCounts second).addCounts third).ext (hfirst.addCounts _) fun key => ?_
  rw [get?_addCounts _ hthird, get?_addCounts _ hsecond, get?_addCounts _ (hsecond.addCounts third),
    get?_addCounts _ hthird]
  exact Std.Associative.assoc _ _ _

/-- Counting under a key adds to the sum of all counts. -/
theorem total_addCount {counts : SortedTable Nat} (h : Ascending counts) (key : String) (n : Nat) :
    total (addCount key n counts) = total counts + n := by
  rw [addCount]
  induction counts with
  | nil => simp [total, get?, SortedTable.insert]
  | cons first counts ih =>
      obtain ⟨k, v⟩ := first
      obtain ⟨hfirst, hrest⟩ := List.pairwise_cons.1 h
      have hrest := ih hrest
      rw [SortedTable.insert]
      split
      · rename_i hlt
        have habsent : get? ((k, v) :: counts) key = none := by
          rw [get?, Option.map_eq_none_iff, List.find?_eq_none]
          intro entry hentry
          rw [beq_iff_eq]
          rcases List.mem_cons.1 hentry with rfl | hentry
          · exact ne_of_gt hlt
          · exact ne_of_gt (lt_trans hlt (hfirst entry hentry))
        rw [habsent]
        simp only [total, List.foldr_cons, Option.getD_none]
        omega
      · split
        · rename_i heq
          subst heq
          simp only [total, get?, List.find?_cons_of_pos, BEq.rfl, Option.map_some, Option.getD_some,
            List.foldr_cons]
          omega
        · rename_i hne
          have hlater : get? ((k, v) :: counts) key = get? counts key := by
            rw [get?, get?, List.find?_cons_of_neg (by simpa using Ne.symm hne)]
          rw [hlater]
          simp only [total, List.foldr_cons] at hrest ⊢
          omega

/-- Counting some things one by one gives their number. -/
theorem total_foldl_addCount {α : Type _} (name : α → String) (xs : List α) :
    total (xs.foldl (fun counts x => addCount (name x) 1 counts) []) = xs.length := by
  have hfold : ∀ counts : SortedTable Nat, Ascending counts →
      total (xs.foldl (fun counts x => addCount (name x) 1 counts) counts) =
        total counts + xs.length := by
    induction xs with
    | nil => simp
    | cons x xs ih =>
        intro counts hcounts
        rw [List.foldl_cons, ih _ (hcounts.addCount _ _), total_addCount hcounts, List.length_cons]
        omega
  rw [hfold [] ascending_nil]
  exact Nat.zero_add _

end SourceLint.SortedTable
