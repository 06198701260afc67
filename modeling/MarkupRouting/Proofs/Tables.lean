import MarkupRouting.Table
import Mathlib.Data.List.Nodup

/-!
# Entries of tables

What is found in a table behind any number of entries set, and tables whose names come once.

* **Table.get?_put**, **get?_update** — the entry found behind one entry set, and behind several.
* **Table.get?_eq_some_iff** — where names come once, entries and what is found are the same.
* **Table.get?_update_update** — entries set in turn can be put together before they are set.
* **Table.update_of_nodup** — entries with names of their own are set at the end.
-/

namespace MarkupRouting.Table

variable {α : Type}

/-- The entry found under a name behind an entry set. -/
theorem get?_put (name other : String) (v : α) (t : Table α) :
    get? (put name v t) other = if other = name then some v else get? t other := by
  split
  · next h => rw [h, get?_put_self]
  · next h => exact get?_put_of_ne h v t

/-- Looking up a name meets the first entry before the others. -/
theorem get?_cons (e : String × α) (t : Table α) (name : String) :
    get? (e :: t) name = if name = e.1 then some e.2 else get? t name := by
  obtain ⟨n, v⟩ := e
  by_cases h : name = n
  · simp [get?, h]
  · have hne : (name == n) = false := beq_eq_false_iff_ne.mpr h
    simp [get?, List.lookup_cons, hne, h]

/-- An entry of the front hides one of the same name behind it. -/
theorem get?_append (t u : Table α) (name : String) :
    get? (t ++ u) name = (get? t name).or (get? u name) := by
  induction t with
  | nil => simp [get?]
  | cons e t ih =>
    rw [List.cons_append, get?_cons, get?_cons, ih]
    split <;> rfl

/-- The entry found behind entries set in turn is the last one set, if there is one. -/
theorem get?_update (t changes : Table α) (name : String) :
    get? (update t changes) name = (get? changes.reverse name).or (get? t name) := by
  induction changes generalizing t with
  | nil => rfl
  | cons e changes ih =>
    obtain ⟨n, v⟩ := e
    rw [show update t ((n, v) :: changes) = update (put n v t) changes from rfl, ih,
      List.reverse_cons, get?_append, get?_put, get?_cons]
    cases get? changes.reverse name <;> split <;> rfl

/-- What is found is an entry. -/
theorem mem_of_get? {t : Table α} {name : String} {v : α} (h : get? t name = some v) :
    (name, v) ∈ t := by
  induction t with
  | nil => cases h
  | cons e t ih =>
    rw [get?_cons] at h
    split at h
    · next hname =>
      obtain rfl := Option.some.inj h
      exact hname ▸ List.mem_cons_self
    · exact List.mem_cons_of_mem e (ih h)

/-- Something is found under the names there are, and under no other ones. -/
theorem get?_eq_none_iff {t : Table α} {name : String} : get? t name = none ↔ name ∉ keys t := by
  induction t with
  | nil => simp [get?, keys]
  | cons e t ih =>
    rw [get?_cons]
    simp only [keys, List.map_cons, List.mem_cons, not_or] at ih ⊢
    split
    · next h => simp [h]
    · next h => simp [h, ih]

/-- Where names come once, every entry is the one that is found under its name. -/
theorem get?_eq_some_iff {t : Table α} (h : (keys t).Nodup) {name : String} {v : α} :
    get? t name = some v ↔ (name, v) ∈ t := by
  refine ⟨mem_of_get?, fun hmem => ?_⟩
  induction t with
  | nil => cases hmem
  | cons e t ih =>
    rw [keys, List.map_cons, List.nodup_cons] at h
    rw [get?_cons]
    rcases List.mem_cons.mp hmem with rfl | hmem
    · rw [if_pos rfl]
    · rw [if_neg, ih h.2 hmem]
      rintro rfl
      exact h.1 (List.mem_map.mpr ⟨_, hmem, rfl⟩)

/-- Where no name comes twice the order of entries does not matter for looking one up. -/
theorem get?_reverse {t : Table α} (h : (keys t).Nodup) (name : String) :
    get? t.reverse name = get? t name := by
  have hreverse : (keys t.reverse).Nodup := by
    rw [keys, List.map_reverse, List.nodup_reverse]
    exact h
  refine Option.ext fun v => ?_
  rw [get?_eq_some_iff hreverse, get?_eq_some_iff h, List.mem_reverse]

/-- The names behind entries set are those there were and those that were set. -/
theorem mem_keys_update {t changes : Table α} {name : String} :
    name ∈ keys (update t changes) ↔ name ∈ keys t ∨ name ∈ keys changes := by
  rw [← not_iff_not, not_or, ← get?_eq_none_iff, get?_update, Option.or_eq_none_iff,
    get?_eq_none_iff, get?_eq_none_iff, keys, List.map_reverse, List.mem_reverse, and_comm]
  rfl

/-- Names still come once behind entries set. -/
theorem nodup_keys_update {t : Table α} (h : (keys t).Nodup) (changes : Table α) :
    (keys (update t changes)).Nodup := by
  induction changes generalizing t with
  | nil => exact h
  | cons e changes ih =>
    refine ih (t := put e.1 e.2 t) ?_
    rw [keys_put]
    split_ifs with hmem
    · exact h
    · refine List.nodup_append.mpr ⟨h, List.nodup_singleton _, ?_⟩
      rintro n hn _ hsingle rfl
      exact hmem (List.mem_singleton.mp hsingle ▸ hn)

/-- What is found behind entries set in turn is found behind all of them put together. -/
theorem get?_update_update (t : Table α) {changes : Table α} (h : (keys changes).Nodup)
    (more : Table α) (name : String) :
    get? (update t (update changes more)) name = get? (update (update t changes) more) name := by
  rw [get?_update, get?_reverse (nodup_keys_update h more), get?_update, get?_update,
    get?_update, get?_reverse h, Option.or_assoc]

/-- An entry with a name of its own is set at the end. -/
theorem put_of_notMem {name : String} {t : Table α} (h : name ∉ keys t) (v : α) :
    put name v t = t ++ [(name, v)] := by
  induction t with
  | nil => rfl
  | cons e t ih =>
    obtain ⟨n, w⟩ := e
    simp only [keys, List.map_cons, List.mem_cons, not_or] at h
    rw [put, if_neg (Ne.symm h.1), ih h.2, List.cons_append]

/-- Entries with names of their own are set at the end. -/
theorem update_of_nodup {t changes : Table α} (h : (keys (t ++ changes)).Nodup) :
    update t changes = t ++ changes := by
  induction changes generalizing t with
  | nil => rw [update, List.foldl_nil, List.append_nil]
  | cons e changes ih =>
    obtain ⟨n, v⟩ := e
    have hname : n ∉ keys t := by
      rw [keys, List.map_append, List.nodup_append] at h
      exact fun hmem => h.2.2 n hmem n List.mem_cons_self rfl
    have hrow : t ++ (n, v) :: changes = t ++ [(n, v)] ++ changes := by simp
    rw [hrow] at h ⊢
    rw [← ih h, ← put_of_notMem hname]
    rfl

/-- Entries whose names are all different are a table as they stand: none takes the place of another
one. -/
theorem ofPairs_of_nodup {pairs : Table α} (h : (keys pairs).Nodup) : ofPairs pairs = pairs :=
  update_of_nodup h

end MarkupRouting.Table
