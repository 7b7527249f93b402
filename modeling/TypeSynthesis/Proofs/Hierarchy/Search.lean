import Mathlib.Data.List.Chain
import Mathlib.Data.List.Perm.Subperm
import TypeSynthesis.Proofs.Hierarchy.Above
import TypeSynthesis.Proofs.Registry.Index

/-!
# The searches of the hierarchy are complete

The bounds that the searches run under never cut short a search that ends.

* `Registry.BaseChain`: the walk from a class to its base for as long as there is one;
* `Registry.Acyclic`: no class is above itself, so that the walk ends (`baseChain_ancestors`) and
  meets each class above it once (`nodup_ancestors`, `mem_ancestors_iff`);
* `Registry.WalksEnd`, `acyclic_iff_walksEnd`: all walks end, which is the same;
* `Registry.unfound`: the number of types that a visit may still find, which is what it spends of
  its bound;
* `mem_allInterfaces_iff`: the interfaces that are found are all that can be reached, also where
  interfaces extend one another in a circle.

From a class above itself the walk goes on for ever, and there is no `BaseChain`
(`BaseChain.not_above_self`).  Its ancestors are then as many classes as the bound allows, and mean
nothing.
-/

namespace TypeSynthesis.Registry

open Relation

variable {R : Registry} {n m : Nat} {t u : TypeId} {found : List TypeId}

theorem mem_keys_of_contains (h : R.contains t = true) : t ∈ R.types.keys := by
  obtain ⟨e, he⟩ := contains_eq_true_iff.1 h
  exact List.mem_map_of_mem (f := (·.1)) (Table.mem_of_lookup_eq_some he)

/-! ### Base classes -/

/-- The walk from a class to its registered base class, for as long as there is one, with the
classes that it meets. -/
inductive BaseChain (R : Registry) : TypeId → List TypeId → Prop
  | stop {t : TypeId} (h : R.baseClass? t = none) : BaseChain R t []
  | step {t b : TypeId} {l : List TypeId} (h : R.Derives t b) (rest : BaseChain R b l) :
      BaseChain R t (b :: l)

/-- No class is above itself. -/
def Acyclic (R : Registry) : Prop := ∀ t, ¬ TransGen R.Derives t t

/-- No class is above itself where ranks descend from each class to its base. -/
theorem acyclic_of_rank {rank : TypeId → Nat} (h : ∀ t b, R.Derives t b → rank b < rank t) :
    R.Acyclic := by
  have descends {t u : TypeId} (htu : TransGen R.Derives t u) : rank u < rank t := by
    induction htu with
    | single step => exact h _ _ step
    | tail _ step ih => exact (h _ _ step).trans ih
  exact fun t ht => Nat.lt_irrefl _ (descends ht)

theorem contains_of_derives (h : R.Derives t u) : R.contains t = true ∧ R.contains u = true := by
  obtain ⟨c, d, hc, -, hd⟩ := derives_iff.1 h
  have ht := get?_of_class? hc
  have hu := get?_of_class? hd
  exact ⟨contains_eq_true_iff.2 ⟨_, ht⟩, contains_eq_true_iff.2 ⟨_, hu⟩⟩

/-- No class is above itself where each comes after its base in the registry. -/
theorem acyclic_of_ordered (h : ∀ t ∈ R.types.keys, ∀ b ∈ R.baseClass? t,
    R.types.keys.idxOf b < R.types.keys.idxOf t) : R.Acyclic :=
  acyclic_of_rank fun t b derives =>
    h t (mem_keys_of_contains (contains_of_derives derives).1) b derives

theorem ancestorsUpTo_succ_of_derives (h : R.Derives t u) (n : Nat) :
    R.ancestorsUpTo (n + 1) t = u :: R.ancestorsUpTo n u := by
  have h : R.baseClass? t = some u := h
  simp [ancestorsUpTo, h]

theorem ancestorsUpTo_of_top (h : R.baseClass? t = none) (n : Nat) :
    R.ancestorsUpTo n t = [] := by
  cases n with
  | zero => rfl
  | succ n => simp [ancestorsUpTo, h]

/-- Each class of the walk is the base of the one before. -/
theorem isChain_ancestorsUpTo (R : Registry) (n : Nat) (t : TypeId) :
    (t :: R.ancestorsUpTo n t).IsChain R.Derives := by
  induction n generalizing t with
  | zero => exact .singleton t
  | succ n ih =>
    cases hb : R.baseClass? t with
    | none =>
      rw [ancestorsUpTo_of_top hb]
      exact .singleton t
    | some b =>
      rw [ancestorsUpTo_succ_of_derives hb]
      exact List.isChain_cons_cons.2 ⟨hb, ih b⟩

theorem pairwise_ancestorsUpTo (R : Registry) (n : Nat) (t : TypeId) :
    (t :: R.ancestorsUpTo n t).Pairwise (TransGen R.Derives) :=
  ((isChain_ancestorsUpTo R n t).imp fun _ _ => .single).pairwise

theorem nodup_ancestorsUpTo (h : R.Acyclic) (n : Nat) (t : TypeId) :
    (t :: R.ancestorsUpTo n t).Nodup := by
  refine (pairwise_ancestorsUpTo R n t).imp ?_
  rintro a b hab rfl
  exact h a hab

/-- A walk meets registered classes only, each of them once, so it is no longer than the
registry. -/
theorem length_ancestorsUpTo_le (h : R.Acyclic) (n : Nat) (t : TypeId) :
    (R.ancestorsUpTo n t).length ≤ R.size := by
  cases hb : R.baseClass? t with
  | none => simp [ancestorsUpTo_of_top hb]
  | some b =>
    have registered : t :: R.ancestorsUpTo n t ⊆ R.types.keys := by
      intro u hu
      rcases List.mem_cons.1 hu with rfl | hu
      · exact mem_keys_of_contains (contains_of_derives hb).1
      · have below := List.rel_of_pairwise_cons (pairwise_ancestorsUpTo R n t) hu
        obtain ⟨v, -, hv⟩ := TransGen.tail'_iff.1 below
        exact mem_keys_of_contains (contains_of_derives hv).2
    have length := ((nodup_ancestorsUpTo h n t).subperm registered).length_le
    simp only [List.length_cons, Table.keys, List.length_map] at length
    show _ ≤ R.types.toList.length
    omega

/-- A walk that has come to its end does not go on under a greater bound. -/
theorem ancestorsUpTo_stable (h : (R.ancestorsUpTo (n + 1) t).length ≤ n) (hm : n ≤ m) :
    R.ancestorsUpTo m t = R.ancestorsUpTo n t := by
  induction n generalizing t m with
  | zero =>
    cases hb : R.baseClass? t with
    | none => rw [ancestorsUpTo_of_top hb, ancestorsUpTo_of_top hb]
    | some b =>
      rw [ancestorsUpTo_succ_of_derives hb] at h
      simp at h
  | succ n ih =>
    cases hb : R.baseClass? t with
    | none => rw [ancestorsUpTo_of_top hb, ancestorsUpTo_of_top hb]
    | some b =>
      obtain ⟨m, rfl⟩ := Nat.exists_eq_add_of_le' (Nat.le_of_succ_le hm)
      cases m with
      | zero => omega
      | succ m =>
        rw [ancestorsUpTo_succ_of_derives hb, List.length_cons] at h
        rw [show m + 1 + n = m + n + 1 by omega, ancestorsUpTo_succ_of_derives hb,
          ancestorsUpTo_succ_of_derives hb, ih (by omega) (by omega)]

section Acyclic

variable (h : R.Acyclic)
include h

/-- The size of the registry bounds every walk. -/
theorem ancestorsUpTo_eq_ancestors (hn : R.size ≤ n) (t : TypeId) :
    R.ancestorsUpTo n t = R.ancestors t :=
  ancestorsUpTo_stable (length_ancestorsUpTo_le h _ t) hn

theorem ancestors_of_derives (htu : R.Derives t u) : R.ancestors t = u :: R.ancestors u := by
  rw [← ancestorsUpTo_eq_ancestors h (Nat.le_succ R.size), ancestorsUpTo_succ_of_derives htu,
    ancestorsUpTo_eq_ancestors h (Nat.le_refl R.size)]

/-- The walk to the base classes ends, with the ancestors. -/
theorem baseChain_ancestors (t : TypeId) : R.BaseChain t (R.ancestors t) := by
  induction hn : (R.ancestors t).length generalizing t with
  | zero =>
    cases hb : R.baseClass? t with
    | none =>
      rw [List.length_eq_zero_iff.1 hn]
      exact .stop hb
    | some b =>
      rw [ancestors_of_derives h hb] at hn
      simp at hn
  | succ n ih =>
    cases hb : R.baseClass? t with
    | none =>
      rw [ancestors, ancestorsUpTo_of_top hb] at hn
      simp at hn
    | some b =>
      rw [ancestors_of_derives h hb] at hn ⊢
      exact .step hb (ih b (Nat.succ.inj hn))

theorem nodup_ancestors (t : TypeId) : (t :: R.ancestors t).Nodup :=
  nodup_ancestorsUpTo h R.size t

/-- The ancestors of a class are all classes above it. -/
theorem mem_ancestors_iff : u ∈ R.ancestors t ↔ TransGen R.Derives t u := by
  constructor
  · exact List.rel_of_pairwise_cons (pairwise_ancestorsUpTo R R.size t)
  · intro htu
    induction htu using TransGen.head_induction_on with
    | single hb => simp [ancestors_of_derives h hb]
    | head hb _ ih => simp [ancestors_of_derives h hb, ih]

end Acyclic

/-- A class from which the walk ends is not above itself.  The induction is on the walk: a circle
through a class is one through its base as well. -/
theorem BaseChain.not_above_self {chain : List TypeId} (walk : R.BaseChain t chain) :
    ¬ TransGen R.Derives t t := by
  induction walk with
  | stop top =>
    intro circle
    obtain ⟨b, derives, -⟩ := TransGen.head'_iff.1 circle
    cases top.symm.trans derives
  | @step t b l derives rest ih =>
    intro circle
    obtain ⟨b', derives', back⟩ := TransGen.head'_iff.1 circle
    obtain rfl : b = b' := Option.some.inj (derives.symm.trans derives')
    exact ih (TransGen.tail' back derives)

/-- The walk from any type to its base classes ends, with the ancestors. -/
def WalksEnd (R : Registry) : Prop := ∀ t, R.BaseChain t (R.ancestors t)

/-- All walks end if and only if no class is above itself. -/
theorem acyclic_iff_walksEnd : R.Acyclic ↔ R.WalksEnd :=
  ⟨baseChain_ancestors, fun walks t => (walks t).not_above_self⟩

/-- Where no class is above itself, none was before the registry grew. -/
theorem Acyclic.of_grows {S : Registry} (acyclic : S.Acyclic) (sound : R.Sound)
    (grows : R.Grows S) (distinct : S.Distinct) : R.Acyclic := by
  have kept {u : TypeId} {c : ClassType} (hc : R.class? u = some c) : S.class? u = some c := by
    have known := contains_eq_true_iff.2 ⟨_, get?_of_class? hc⟩
    unfold class? at hc ⊢
    rwa [get?_eq_of_grows sound grows distinct fun _ => known]
  refine fun t circle => acyclic t (TransGen.mono (fun u b derives => ?_) t t circle)
  obtain ⟨c, d, hc, hb, hd⟩ := derives_iff.1 derives
  exact derives_iff.2 ⟨c, d, kept hc, hb, kept hd⟩

/-! ### Interfaces -/

/-- The number of types that are not among those found. -/
def unfound (R : Registry) (found : List TypeId) : Nat :=
  (R.types.keys.filter (· ∉ found)).length

theorem unfound_le_size (R : Registry) (found : List TypeId) : R.unfound found ≤ R.size := by
  refine (List.length_filter_le _ _).trans ?_
  simp [Table.keys, size, Table.size]

theorem unfound_le_of_subset {found' : List TypeId} (h : found ⊆ found') :
    R.unfound found' ≤ R.unfound found := by
  refine List.Sublist.length_le (List.monotone_filter_right _ fun t ht => ?_)
  simp only [decide_eq_true_eq] at ht ⊢
  exact fun hfound => ht (h hfound)

theorem unfound_append_lt (ht : R.contains t = true) (new : t ∉ found) :
    R.unfound (found ++ [t]) < R.unfound found := by
  have split : R.types.keys.filter (· ∉ found ++ [t]) =
      (R.types.keys.filter (· ∉ found)).filter (· ≠ t) := by
    rw [List.filter_filter]
    refine List.filter_congr fun u _ => ?_
    simp [and_comm]
  unfold unfound
  rw [split]
  refine List.length_filter_lt_length_iff_exists.2 ⟨t, ?_, by simp⟩
  simpa [new] using mem_keys_of_contains ht

theorem contains_of_extends (h : R.Extends t u) : R.contains t = true := by
  obtain ⟨e, he, -⟩ := above_of_extends h
  exact contains_eq_true_iff.2 ⟨e, he⟩

theorem subset_foldl {f : List TypeId → TypeId → List TypeId}
    (hf : ∀ found i, found ⊆ f found i) (is found : List TypeId) :
    found ⊆ is.foldl f found := by
  induction is generalizing found with
  | nil => exact List.Subset.refl _
  | cons i is ih => exact List.Subset.trans (hf found i) (ih _)

/-- A visit forgets nothing. -/
theorem subset_visit (R : Registry) (n : Nat) (found : List TypeId) (t : TypeId) :
    found ⊆ R.visit n found t := by
  induction n generalizing found t with
  | zero => exact List.Subset.refl _
  | succ n ih =>
    unfold visit
    split
    · exact List.Subset.refl _
    · exact List.Subset.trans (List.subset_append_left _ _) (subset_foldl ih _ _)

/-- The second list has what is in the first, and with each further interface all that it
extends. -/
structure Closes (R : Registry) (found found' : List TypeId) : Prop where
  subset : found ⊆ found'
  closed {t i : TypeId} (ht : t ∈ found') (new : t ∉ found) (hi : R.Extends t i) : i ∈ found'

theorem Closes.refl (R : Registry) (found : List TypeId) : R.Closes found found :=
  ⟨List.Subset.refl _, fun ht new _ => absurd ht new⟩

theorem Closes.trans {found' found'' : List TypeId} (h : R.Closes found found')
    (h' : R.Closes found' found'') : R.Closes found found'' where
  subset := List.Subset.trans h.subset h'.subset
  closed {t i} ht new hi := by
    by_cases old : t ∈ found'
    · exact h'.subset (h.closed old new hi)
    · exact h'.closed ht old hi

/-- Searches that close what they find do so one after the other. -/
theorem closes_foldl {f : List TypeId → TypeId → List TypeId} {is : List TypeId}
    (hf : ∀ found' i, found ⊆ found' → R.Closes found' (f found' i) ∧ i ∈ f found' i) :
    R.Closes found (is.foldl f found) ∧ ∀ i ∈ is, i ∈ is.foldl f found := by
  induction is generalizing found with
  | nil => exact ⟨.refl R found, nofun⟩
  | cons i is ih =>
    obtain ⟨first, hi⟩ := hf found i (List.Subset.refl _)
    obtain ⟨rest, his⟩ := ih fun found' j h => hf found' j (List.Subset.trans first.subset h)
    exact ⟨first.trans rest, List.forall_mem_cons.2 ⟨rest.subset hi, his⟩⟩

/-- A visit whose bound exceeds what is left to be found closes what it finds.  The induction is on
the bound: each step finds one more registered type, or ends at one that is not registered. -/
theorem closes_visit (fuel : R.unfound found < n) :
    R.Closes found (R.visit n found t) ∧ t ∈ R.visit n found t := by
  induction n generalizing found t with
  | zero => exact absurd fuel (Nat.not_lt_zero _)
  | succ n ih =>
    unfold visit
    split
    · rename_i old
      exact ⟨.refl R found, old⟩
    · rename_i new
      have step : R.Closes (found ++ [t])
            ((R.baseInterfaces t).foldl (R.visit n) (found ++ [t])) ∧
          ∀ i ∈ R.baseInterfaces t,
            i ∈ (R.baseInterfaces t).foldl (R.visit n) (found ++ [t]) := by
        cases hbases : R.baseInterfaces t with
        | nil => exact ⟨.refl R _, List.forall_mem_nil _⟩
        | cons i is =>
          have extends_ : R.Extends t i := by simp [Extends, hbases]
          have less := unfound_append_lt (contains_of_extends extends_) new
          refine closes_foldl fun found' j h => ih ?_
          have := unfound_le_of_subset (R := R) h
          omega
      obtain ⟨closes, bases⟩ := step
      have self : t ∈ (R.baseInterfaces t).foldl (R.visit n) (found ++ [t]) :=
        closes.subset (by simp)
      refine ⟨⟨List.Subset.trans (List.subset_append_left _ _) closes.subset, ?_⟩, self⟩
      intro u i hu unseen hi
      by_cases hut : u = t
      · rw [hut] at hi
        exact bases i hi
      · exact closes.closed hu (by simp [unseen, hut]) hi

/-- The interfaces of a type are those that it names, and all that these extend. -/
theorem mem_allInterfaces_iff :
    u ∈ R.allInterfaces t ↔ ∃ i ∈ R.namedInterfaces t, ReflTransGen R.Extends i u := by
  constructor
  · exact extends_of_mem_allInterfaces
  · rintro ⟨i, hi, hiu⟩
    have fuel (found : List TypeId) : R.unfound found < R.size + 1 :=
      Nat.lt_succ_of_le (R.unfound_le_size found)
    have search : R.Closes [] (R.allInterfaces t) ∧
        ∀ j ∈ R.namedInterfaces t, j ∈ R.allInterfaces t :=
      closes_foldl fun found' j _ => closes_visit (fuel found')
    obtain ⟨closes, named⟩ := search
    induction hiu with
    | refl => exact named i hi
    | tail _ step ih => exact closes.closed ih List.not_mem_nil step

theorem foldl_congr_of_subset {f g : List TypeId → TypeId → List TypeId}
    (hf : ∀ found i, found ⊆ f found i) {is : List TypeId}
    (h : ∀ found' i, found ⊆ found' → f found' i = g found' i) :
    is.foldl f found = is.foldl g found := by
  induction is generalizing found with
  | nil => rfl
  | cons i is ih =>
    rw [List.foldl_cons, List.foldl_cons, ← h found i (List.Subset.refl _)]
    exact ih fun found' j hsub => h found' j (List.Subset.trans (hf found i) hsub)

/-- A greater bound changes nothing. -/
theorem visit_stable (hn : R.unfound found < n) (hm : R.unfound found < m) :
    R.visit n found t = R.visit m found t := by
  induction n generalizing found t m with
  | zero => exact absurd hn (Nat.not_lt_zero _)
  | succ n ih =>
    cases m with
    | zero => exact absurd hm (Nat.not_lt_zero _)
    | succ m =>
      unfold visit
      split
      · rfl
      · rename_i new
        cases hbases : R.baseInterfaces t with
        | nil => rfl
        | cons i is =>
          have extends_ : R.Extends t i := by simp [Extends, hbases]
          have less := unfound_append_lt (contains_of_extends extends_) new
          refine foldl_congr_of_subset (R.subset_visit n) fun found' j h => ?_
          have := unfound_le_of_subset (R := R) h
          exact ih (by omega) (by omega)

end TypeSynthesis.Registry
