import TypeSynthesis.Binding

/-!
# Captures

The outer bindings that a closure refers to.

* `Capture`: a captured name with the role that the reader gave it and, once it is resolved, its
  type and site;
* `CaptureSet`: captures in the order of their names, at most one for each name;
* `CaptureSet.insert`, `CaptureSet.filter`, `CaptureSet.update`: the operations;
* `CaptureSet.get?`: the capture of a name.
-/

namespace TypeSynthesis

/-- A captured outer binding. -/
structure Capture where
  name : String
  role : Role
  site? : Option Site := none
  type? : Option TypeRef := none
  deriving DecidableEq, Repr, Inhabited

namespace Capture

/-- Whether the type is known. -/
def isResolved (c : Capture) : Bool := c.type?.isSome

/-- Whether this is the reference to the object being defined. -/
def isObjectSelf (c : Capture) : Bool := c.role == .objectSelf

end Capture

/-- Insert a capture into a list in the order of names, replacing the one of its name. -/
def insertCapture (c : Capture) : List Capture → List Capture
  | [] => [c]
  | d :: l =>
    if c.name < d.name then c :: d :: l
    else if c.name = d.name then c :: l
    else d :: insertCapture c l

theorem mem_insertCapture {c d : Capture} {l : List Capture} (h : d ∈ insertCapture c l) :
    d = c ∨ d ∈ l := by
  induction l with
  | nil => simpa [insertCapture] using h
  | cons e l ih =>
    unfold insertCapture at h
    split at h
    · simpa using h
    · split at h
      · rcases List.mem_cons.1 h with h | h
        · exact .inl h
        · exact .inr (List.mem_cons_of_mem _ h)
      · rcases List.mem_cons.1 h with h | h
        · exact .inr (h ▸ List.mem_cons_self)
        · exact (ih h).imp id (List.mem_cons_of_mem _)

/-- Insertion keeps the order of names. -/
theorem pairwise_insertCapture (c : Capture) {l : List Capture}
    (h : l.Pairwise (·.name < ·.name)) : (insertCapture c l).Pairwise (·.name < ·.name) := by
  induction l with
  | nil => simp [insertCapture]
  | cons d l ih =>
    obtain ⟨hd, hl⟩ := List.pairwise_cons.1 h
    unfold insertCapture
    split
    · rename_i hlt
      refine List.pairwise_cons.2 ⟨fun e he => ?_, h⟩
      rcases List.mem_cons.1 he with rfl | he
      · exact hlt
      · exact String.lt_trans hlt (hd e he)
    · rename_i hnlt
      split
      · rename_i heq
        exact List.pairwise_cons.2 ⟨fun e he => heq ▸ hd e he, hl⟩
      · rename_i hne
        refine List.pairwise_cons.2 ⟨fun e he => ?_, ih hl⟩
        rcases mem_insertCapture he with rfl | he
        · rcases Decidable.em (d.name < e.name) with hlt | hge
          · exact hlt
          · exact absurd (String.le_antisymm (String.not_lt.1 hge) (String.not_lt.1 hnlt)) hne
        · exact hd e he

theorem find?_cons_name (c : Capture) (l : List Capture) (name : String) :
    (c :: l).find? (·.name == name) =
      if name = c.name then some c else l.find? (·.name == name) := by
  split
  · rename_i same
    exact List.find?_cons_of_pos (beq_iff_eq.2 same.symm)
  · rename_i differ
    exact List.find?_cons_of_neg (by simpa using Ne.symm differ)

/-- After an insertion its name leads to the new capture, and any other name to what it led to. -/
theorem find?_insertCapture (c : Capture) (l : List Capture) (name : String) :
    (insertCapture c l).find? (·.name == name) =
      if name = c.name then some c else l.find? (·.name == name) := by
  induction l with
  | nil => exact find?_cons_name c [] name
  | cons d l ih =>
    unfold insertCapture
    split
    · exact find?_cons_name c (d :: l) name
    · split
      · rename_i same
        rw [find?_cons_name, find?_cons_name, same]
        split <;> rfl
      · rename_i differ
        rw [find?_cons_name, find?_cons_name, ih]
        split
        · rename_i same
          rw [if_neg fun same' => differ (same'.symm.trans same)]
        · rfl

/-- In a list in the order of names, a capture is known by its name. -/
theorem eq_of_name_eq {c d : Capture} {l : List Capture} (h : l.Pairwise (·.name < ·.name))
    (hc : c ∈ l) (hd : d ∈ l) (same : c.name = d.name) : c = d := by
  induction h with
  | nil => cases hc
  | cons before _ ih =>
    rcases List.mem_cons.1 hc with rfl | hc' <;> rcases List.mem_cons.1 hd with rfl | hd'
    · rfl
    · exact absurd (before d hd') (same ▸ String.lt_irrefl _)
    · exact absurd (before c hc') (same ▸ String.lt_irrefl _)
    · exact ih hc' hd'

/-- Captures in the order of their names, at most one for each name. -/
structure CaptureSet where
  toList : List Capture := []
  sorted : toList.Pairwise (·.name < ·.name) := by exact List.Pairwise.nil
  deriving DecidableEq, Repr

namespace CaptureSet

instance : Inhabited CaptureSet := ⟨{}⟩

/-- The set that captures nothing. -/
def empty : CaptureSet := {}

/-- Add a capture, replacing the one of its name. -/
def insert (s : CaptureSet) (c : Capture) : CaptureSet :=
  ⟨insertCapture c s.toList, pairwise_insertCapture c s.sorted⟩

/-- The captures of a list, of which the last of each name counts. -/
def ofList (l : List Capture) : CaptureSet := l.foldl insert empty

/-- The capture of a name. -/
def get? (s : CaptureSet) (name : String) : Option Capture := s.toList.find? (·.name == name)

/-- Whether the name is captured. -/
def contains (s : CaptureSet) (name : String) : Bool := (s.get? name).isSome

/-- The captures that pass a test. -/
def filter (s : CaptureSet) (p : Capture → Bool) : CaptureSet :=
  ⟨s.toList.filter p, s.sorted.filter p⟩

/-- The number of captures. -/
def size (s : CaptureSet) : Nat := s.toList.length

/-- Whether nothing is captured. -/
def isEmpty (s : CaptureSet) : Bool := s.toList.isEmpty

/-- Change the type and the site of each capture. -/
def update (s : CaptureSet) (f : Capture → Option Site × Option TypeRef) : CaptureSet :=
  ⟨s.toList.map fun c => { c with site? := (f c).1, type? := (f c).2 },
    List.pairwise_map.2 s.sorted⟩

@[ext] theorem ext {s t : CaptureSet} (h : s.toList = t.toList) : s = t := by
  cases s; cases t; cases h; rfl

@[simp] theorem toList_empty : empty.toList = [] := rfl

@[simp] theorem toList_filter (s : CaptureSet) (p : Capture → Bool) :
    (s.filter p).toList = s.toList.filter p := rfl

/-! ### Look-up -/

theorem get?_insert (s : CaptureSet) (c : Capture) (name : String) :
    (s.insert c).get? name = if name = c.name then some c else s.get? name :=
  find?_insertCapture c s.toList name

theorem get?_eq_some_iff {s : CaptureSet} {c : Capture} {name : String} :
    s.get? name = some c ↔ c ∈ s.toList ∧ c.name = name := by
  have named {d : Capture} (h : s.get? name = some d) : d.name = name := by
    simpa using List.find?_some h
  constructor
  · intro h
    exact ⟨List.mem_of_find?_eq_some h, named h⟩
  · rintro ⟨mem, same⟩
    have found : (s.get? name).isSome = true :=
      List.find?_isSome.2 ⟨c, mem, beq_iff_eq.2 same⟩
    obtain ⟨d, hd⟩ := Option.isSome_iff_exists.1 found
    rw [hd, eq_of_name_eq s.sorted (List.mem_of_find?_eq_some hd) mem ((named hd).trans same.symm)]

theorem get?_filter (s : CaptureSet) (p : Capture → Bool) (name : String) :
    (s.filter p).get? name = (s.get? name).filter p := by
  refine Option.ext fun c => ?_
  rw [Option.filter_eq_some_iff, get?_eq_some_iff, get?_eq_some_iff, toList_filter, List.mem_filter]
  exact and_right_comm

end CaptureSet

end TypeSynthesis
