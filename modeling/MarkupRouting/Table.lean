/-!
# Tables

Named entries in the order in which their names first came, the way attributes, settings and counts
are kept.

* **Table** — the entries, first name first.
* **Table.put** — one entry set: a known name keeps its place and takes the new value, a new one
  comes last (**keys_put**).
* **Table.ofPairs**, **Table.update** — many entries set in turn.
-/

namespace MarkupRouting

/-- Named entries in the order in which their names first came. -/
abbrev Table (α : Type) := List (String × α)

namespace Table

variable {α : Type}

/-- The names of the entries, in order. -/
def keys (t : Table α) : List String := t.map Prod.fst

/-- The value of the first entry with the given name. -/
def get? (t : Table α) (name : String) : Option α := t.lookup name

/-- The table with one entry set: a known name keeps its place, a new one comes last. -/
def put (name : String) (v : α) : Table α → Table α
  | [] => [(name, v)]
  | (n, w) :: rest => if n = name then (n, v) :: rest else (n, w) :: put name v rest

/-- The table with the given entries set in turn. -/
def update (t : Table α) (changes : List (String × α)) : Table α :=
  changes.foldl (fun entries (name, v) => put name v entries) t

/-- The table made of the given entries: of several with one name the first place and the last value
count. -/
def ofPairs (pairs : List (String × α)) : Table α := update [] pairs

/-- Setting an entry adds its name at the end, unless the name is there already. -/
theorem keys_put (name : String) (v : α) (t : Table α) :
    keys (put name v t) = if name ∈ keys t then keys t else keys t ++ [name] := by
  induction t with
  | nil => simp [keys, put]
  | cons e rest ih =>
    obtain ⟨n, w⟩ := e
    by_cases h : n = name
    · simp [keys, put, h]
    · have h' : name ≠ n := fun e => h e.symm
      simp only [put, if_neg h]
      simp only [keys, List.map_cons, List.mem_cons, h', false_or] at ih ⊢
      rw [ih]
      split <;> simp_all

/-- The entry that was set is the one found under its name. -/
theorem get?_put_self (name : String) (v : α) (t : Table α) :
    get? (put name v t) name = some v := by
  induction t with
  | nil => simp [get?, put]
  | cons e rest ih =>
    obtain ⟨n, w⟩ := e
    by_cases h : n = name
    · simp [get?, put, h]
    · have h' : (name == n) = false := beq_eq_false_iff_ne.2 (fun e => h e.symm)
      simp only [get?, put, if_neg h, List.lookup_cons, h'] at ih ⊢
      exact ih

/-- Setting an entry leaves the others as they are. -/
theorem get?_put_of_ne {name other : String} (h : other ≠ name) (v : α) (t : Table α) :
    get? (put name v t) other = get? t other := by
  induction t with
  | nil => simp [get?, put, h]
  | cons e rest ih =>
    obtain ⟨n, w⟩ := e
    by_cases hn : n = name
    · subst hn
      have h' : (other == n) = false := by simp [h]
      simp [get?, put, List.lookup_cons, h']
    · simp only [get?, put, if_neg hn, List.lookup_cons] at ih ⊢
      split
      · rfl
      · exact ih

end Table

end MarkupRouting
