/-!
# Finite tables in order of insertion

A `Table` maps keys to values.  A key that is inserted again keeps its place.

* `Table.get?`: the value of a key, the view through which every operation is described;
* `Table.insert`, `Table.erase`: the operations;
* `Table.keys`, `Table.values`, `Table.size`: the content in order.
-/

namespace TypeSynthesis

universe u v

/-- A finite map that remembers the order of insertion. -/
structure Table (κ : Type u) (ν : Type v) where
  toList : List (κ × ν) := []
  deriving DecidableEq, Repr, Inhabited

namespace Table

variable {κ : Type u} {ν : Type v} [DecidableEq κ]

/-- The table without entries. -/
def empty : Table κ ν := ⟨[]⟩

/-- The value of a key. -/
def get? (t : Table κ ν) (k : κ) : Option ν := t.toList.lookup k

/-- Whether the key has a value. -/
def contains (t : Table κ ν) (k : κ) : Bool := (t.get? k).isSome

/-- Set the value of a key in a list of pairs: in place if the key is there, else at the end. -/
def put (k : κ) (v : ν) : List (κ × ν) → List (κ × ν)
  | [] => [(k, v)]
  | (k', v') :: l => if k = k' then (k, v) :: l else (k', v') :: put k v l

/-- Drop the first pair of a key from a list of pairs. -/
def drop (k : κ) : List (κ × ν) → List (κ × ν)
  | [] => []
  | (k', v') :: l => if k = k' then l else (k', v') :: drop k l

/-- Set the value of a key.  A key that has one keeps its place. -/
def insert (t : Table κ ν) (k : κ) (v : ν) : Table κ ν := ⟨put k v t.toList⟩

/-- Forget a key. -/
def erase (t : Table κ ν) (k : κ) : Table κ ν := ⟨drop k t.toList⟩

/-- The number of entries. -/
def size (t : Table κ ν) : Nat := t.toList.length

/-- The keys in order of insertion. -/
def keys (t : Table κ ν) : List κ := t.toList.map (·.1)

/-- The values in order of insertion. -/
def values (t : Table κ ν) : List ν := t.toList.map (·.2)

@[simp] theorem get?_empty (k : κ) : (empty : Table κ ν).get? k = none := rfl

theorem lookup_cons_of_ne {k a : κ} (h : k ≠ a) (b : ν) (l : List (κ × ν)) :
    ((a, b) :: l).lookup k = l.lookup k := by
  rw [List.lookup_cons, beq_false_of_ne h]

theorem lookup_put (k k' : κ) (v : ν) (l : List (κ × ν)) :
    (put k v l).lookup k' = if k' = k then some v else l.lookup k' := by
  induction l with
  | nil =>
    by_cases h : k' = k
    · simp [put, h]
    · simp [put, h, lookup_cons_of_ne h]
  | cons p l ih =>
    obtain ⟨a, b⟩ := p
    by_cases hka : k = a
    · subst hka
      by_cases h : k' = k
      · simp [put, h]
      · simp [put, h, lookup_cons_of_ne h]
    · by_cases h : k' = a
      · subst h
        simp [put, hka, Ne.symm hka]
      · simp [put, hka, lookup_cons_of_ne h, ih]

/-- The last value set for a key is the one found. -/
theorem get?_insert (t : Table κ ν) (k k' : κ) (v : ν) :
    (t.insert k v).get? k' = if k' = k then some v else t.get? k' :=
  lookup_put k k' v t.toList

@[simp] theorem get?_insert_self (t : Table κ ν) (k : κ) (v : ν) :
    (t.insert k v).get? k = some v := by
  simp [get?_insert]

theorem get?_insert_of_ne (t : Table κ ν) {k k' : κ} (v : ν) (h : k' ≠ k) :
    (t.insert k v).get? k' = t.get? k' := by
  simp [get?_insert, h]

theorem length_le_put (k : κ) (v : ν) (l : List (κ × ν)) : l.length ≤ (put k v l).length := by
  induction l with
  | nil => exact Nat.zero_le _
  | cons p l ih =>
    obtain ⟨a, b⟩ := p
    by_cases h : k = a
    · simp [put, h]
    · simpa [put, h] using ih

theorem size_le_insert (t : Table κ ν) (k : κ) (v : ν) : t.size ≤ (t.insert k v).size :=
  length_le_put k v t.toList

/-- Dropping a key that was put at the end gives the list back. -/
theorem drop_put_of_lookup_none {k : κ} {v : ν} {l : List (κ × ν)} (h : l.lookup k = none) :
    drop k (put k v l) = l := by
  induction l with
  | nil => simp [put, drop]
  | cons p l ih =>
    obtain ⟨a, b⟩ := p
    by_cases hka : k = a
    · subst hka
      simp at h
    · rw [lookup_cons_of_ne hka] at h
      simp [put, drop, hka, ih h]

/-- Putting the old value back gives the list back. -/
theorem put_put_of_lookup_some {k : κ} {v w : ν} {l : List (κ × ν)} (h : l.lookup k = some w) :
    put k w (put k v l) = l := by
  induction l with
  | nil => simp at h
  | cons p l ih =>
    obtain ⟨a, b⟩ := p
    by_cases hka : k = a
    · subst hka
      simp only [List.lookup_cons_self, Option.some.injEq] at h
      simp [put, h]
    · rw [lookup_cons_of_ne hka] at h
      simp [put, hka, ih h]

/-- A new key is forgotten without a trace. -/
theorem erase_insert {t : Table κ ν} {k : κ} {v : ν} (h : t.get? k = none) :
    (t.insert k v).erase k = t :=
  congrArg Table.mk (drop_put_of_lookup_none h)

/-- A replaced value is restored without a trace. -/
theorem insert_insert {t : Table κ ν} {k : κ} {v w : ν} (h : t.get? k = some w) :
    (t.insert k v).insert k w = t :=
  congrArg Table.mk (put_put_of_lookup_some h)

end Table

end TypeSynthesis
