import TypeSynthesis.Proofs.Overload.Dominance

/-!
# Exact candidates

A candidate that takes the arguments as they are is selected, unless another one has its slot.

* `Signature.Leads`: a signature is the first of its slot in a list;
* `mem_firstPerSlot_iff`, `pairwise_firstPerSlot`: where each slot counts once, the first signature
  of a slot stays;
* `Registry.key_eq_of_cost`: only what has the parameter's key converts to it at no cost;
* `Registry.select?_exact`: with its own parameters for arguments, a candidate is selected.
-/

namespace TypeSynthesis

/-! ### The first signature of a slot -/

/-- The signature `m` is the first of its slot in a list. -/
def Signature.Leads (m : Signature) (ms : List Signature) : Prop :=
  ms.find? (·.slot == m.slot) = some m

instance (m : Signature) (ms : List Signature) : Decidable (m.Leads ms) :=
  inferInstanceAs (Decidable (_ = _))

section Leads

variable {ms : List Signature} {m n : Signature}

theorem Signature.Leads.mem (h : m.Leads ms) : m ∈ ms := List.mem_of_find?_eq_some h

theorem Signature.Leads.unique (hm : m.Leads ms) (hn : n.Leads ms) (slot : m.slot = n.slot) :
    m = n := by
  unfold Leads at hm hn
  rw [slot, hn] at hm
  exact (Option.some.inj hm).symm

theorem Signature.leads_cons_self (m : Signature) (ms : List Signature) : m.Leads (m :: ms) :=
  List.find?_cons_of_pos (beq_self_eq_true m.slot)

theorem Signature.leads_cons_iff (h : n.slot ≠ m.slot) : m.Leads (n :: ms) ↔ m.Leads ms := by
  unfold Leads
  rw [List.find?_cons_of_neg (by simpa using h)]

theorem Signature.eq_of_leads_cons (h : m.Leads (n :: ms)) (slot : n.slot = m.slot) : m = n :=
  h.unique (leads_cons_self n ms) slot.symm

theorem Signature.Leads.append (h : m.Leads ms) (more : List Signature) : m.Leads (ms ++ more) := by
  unfold Leads at h ⊢
  rw [List.find?_append, h, Option.some_or]

/-- The first of a slot in two lists is the first in the one, or in the other if the one has
nothing of the slot. -/
theorem Signature.leads_append_iff {ns : List Signature} :
    m.Leads (ms ++ ns) ↔ m.Leads ms ∨ (∀ n ∈ ms, n.slot ≠ m.slot) ∧ m.Leads ns := by
  unfold Leads
  rw [List.find?_append, Option.or_eq_some_iff, List.find?_eq_none]
  simp only [beq_iff_eq]

/-- Each slot of a list has a first signature. -/
theorem Signature.exists_leads (h : m ∈ ms) :
    ∃ n : Signature, n.Leads ms ∧ n.slot = m.slot := by
  have found : (ms.find? (·.slot == m.slot)).isSome = true :=
    List.find?_isSome.2 ⟨m, h, beq_self_eq_true m.slot⟩
  obtain ⟨n, hn⟩ := Option.isSome_iff_exists.1 found
  have slot : n.slot = m.slot := by simpa using List.find?_some hn
  refine ⟨n, ?_, slot⟩
  unfold Leads
  rw [slot, hn]

/-- Where each slot counts once, the first signature of a slot stays. -/
theorem mem_firstPerSlot_iff {seen : List TypeId} :
    m ∈ firstPerSlot seen ms ↔ m.slot ∉ seen ∧ m.Leads ms := by
  induction ms generalizing seen with
  | nil => simp [Signature.Leads]
  | cons n ms ih =>
    by_cases hn : n.slot ∈ seen
    · rw [firstPerSlot_cons_of_mem hn, ih]
      refine and_congr_right fun hm => (Signature.leads_cons_iff ?_).symm
      rintro same
      exact hm (same ▸ hn)
    · rw [firstPerSlot_cons_of_not_mem hn, List.mem_cons, ih, List.mem_cons, not_or]
      by_cases slot : n.slot = m.slot
      · constructor
        · rintro (rfl | ⟨⟨new, -⟩, -⟩)
          · exact ⟨hn, Signature.leads_cons_self m ms⟩
          · exact absurd slot.symm new
        · rintro ⟨-, leads⟩
          exact .inl (Signature.eq_of_leads_cons leads slot)
      · rw [Signature.leads_cons_iff slot]
        constructor
        · rintro (rfl | ⟨⟨-, hm⟩, leads⟩)
          · exact absurd rfl slot
          · exact ⟨hm, leads⟩
        · rintro ⟨hm, leads⟩
          exact .inr ⟨⟨Ne.symm slot, hm⟩, leads⟩

theorem pairwise_firstPerSlot (seen : List TypeId) (ms : List Signature) :
    (firstPerSlot seen ms).Pairwise (·.slot ≠ ·.slot) := by
  induction ms generalizing seen with
  | nil => exact .nil
  | cons m ms ih =>
    by_cases hm : m.slot ∈ seen
    · rw [firstPerSlot_cons_of_mem hm]
      exact ih seen
    · rw [firstPerSlot_cons_of_not_mem hm]
      refine .cons (fun n hn same => ?_) (ih _)
      apply (mem_firstPerSlot_iff.1 hn).1
      rw [← same]
      exact List.mem_cons_self

end Leads

/-! ### Matches without a cost -/

theorem Primitive.cost_pos {p q : Primitive} {c : Conversion} (h : p.conversion? q = some c)
    (hne : p ≠ q) : 0 < c.cost := by
  unfold conversion? at h
  rw [if_neg hne] at h
  split_ifs at h <;> cases h <;> decide

/-- A match that ranks above each other one is the best alone. -/
theorem bestMatches_of_better {α : Type} {m : Match α} {ms : List (Match α)}
    (h : ∀ n ∈ ms, m.Better n) : bestMatches (m :: ms) = [m] := by
  have front : ∀ n ∈ ms, ¬ n.Better m := by
    intro n hn
    have := h n hn
    unfold Match.Better at this ⊢
    omega
  obtain ⟨tied, best, sub⟩ := bestMatches_cons front
  cases tied with
  | nil => exact best
  | cons n tied =>
    have hn : n ∈ bestMatches (m :: ms) := by
      rw [best]
      exact List.mem_cons_of_mem m List.mem_cons_self
    exact absurd (h n (sub List.mem_cons_self))
      ((mem_bestMatches_iff.1 hn).2 m List.mem_cons_self)

namespace Registry

variable {R : Registry} {a p : TypeRef} {args params : List TypeRef} {m : Signature}

theorem conversion?_self (R : Registry) (a : TypeRef) : R.conversion? a a = some .identity := by
  unfold conversion?
  cases h : a.isByRef <;> simp

theorem conversions?_self (R : Registry) (args : List TypeRef) :
    R.conversions? args args = some (args.map fun _ => .identity) := by
  induction args with
  | nil => rfl
  | cons a args ih =>
    exact conversions?_cons_eq_some_iff.2 ⟨_, _, conversion?_self R a, ih, rfl⟩

theorem rootConversion?_cost {t : TypeId} {c : Conversion} (h : R.rootConversion? t = some c) :
    0 < c.cost := by
  unfold rootConversion? at h
  split at h <;> cases h <;> decide

/-- Between different types by value no conversion is free. -/
theorem cost_pos_of_id_ne {c : Conversion} (h : R.conversion? a p = some c)
    (values : (a.isByRef || p.isByRef) = false) (hid : a.id ≠ p.id) : 0 < c.cost := by
  unfold conversion? at h
  rw [values, if_neg Bool.false_ne_true, if_neg hid] at h
  split at h
  · rename_i source target hsource htarget
    refine Primitive.cost_pos h fun same => hid ?_
    rw [← Primitive.id_of_ofId? hsource, ← Primitive.id_of_ofId? htarget, same]
  · split_ifs at h
    · exact rootConversion?_cost h
    all_goals cases h; decide

/-- Only what has the parameter's key converts to it at no cost. -/
theorem key_eq_of_cost {c : Conversion} (h : R.conversion? a p = some c) (cost : c.cost = 0) :
    a.key = p.key := by
  cases values : a.isByRef || p.isByRef with
  | false =>
    have same : a.id = p.id := by
      by_contra hid
      exact absurd cost (cost_pos_of_id_ne h values hid).ne'
    rw [Bool.or_eq_false_iff] at values
    unfold TypeRef.key
    rw [values.1, values.2, same]
  | true =>
    unfold conversion? at h
    rw [if_pos values] at h
    split at h
    · rename_i same
      simp only [Bool.and_eq_true, beq_iff_eq] at same
      unfold TypeRef.key
      rw [same.1.1, same.1.2, same.2]
    · cases h

theorem keys_eq_of_totalCost {cs : List Conversion} (h : R.conversions? args params = some cs)
    (cost : Conversion.totalCost cs = 0) : args.map TypeRef.key = params.map TypeRef.key := by
  induction args generalizing params cs with
  | nil =>
    cases params with
    | nil => rfl
    | cons p params => cases h
  | cons a args ih =>
    cases params with
    | nil => cases h
    | cons p params =>
      obtain ⟨d, ds, hd, hds, rfl⟩ := conversions?_cons_eq_some_iff.1 h
      unfold Conversion.totalCost at cost
      rw [List.map_cons, List.map_cons, key_eq_of_cost hd (by omega), ih hds (by omega)]

/-- A candidate with its own parameters for arguments is selected before all with other keys. -/
theorem select?_cons_exact {others : List Signature}
    (apart : ∀ n ∈ others, m.params.map TypeRef.key ≠ n.params.map TypeRef.key) :
    R.select? (m :: others) m.params = some m := by
  let exact : Match Signature := ⟨m, m.params.map fun _ => .identity, 0⟩
  have free (args : List TypeRef) : Conversion.totalCost (args.map fun _ => .identity) = 0 := by
    induction args with
    | nil => rfl
    | cons a args ih => exact (Nat.zero_add _).trans ih
  have front : R.match? m.params m = some exact := by
    unfold match?
    rw [conversions?_self, Option.map_some, free]
  have better : ∀ n ∈ R.applicable others m.params, exact.Better n := by
    intro n hn
    obtain ⟨hmem, hmatch⟩ := mem_applicable_iff.1 hn
    obtain ⟨cs, hcs, hn⟩ := Option.map_eq_some_iff.1 hmatch
    refine .inl (Nat.pos_of_ne_zero fun cost => apart n.candidate hmem ?_)
    exact keys_eq_of_totalCost hcs (by rw [← cost, ← hn])
  have best : bestMatches (R.applicable (m :: others) m.params) = [exact] := by
    unfold applicable
    rw [List.filterMap_cons_some front]
    exact bestMatches_of_better better
  unfold select?
  rw [best]

/-- Of candidates with one name and different slots, one is selected where the arguments are its own
parameters. -/
theorem select?_exact {candidates : List Signature} (h : m ∈ candidates)
    (named : ∀ n ∈ candidates, n.name = m.name)
    (distinct : candidates.Pairwise (·.slot ≠ ·.slot)) :
    R.select? candidates m.params = some m := by
  obtain ⟨before, after, rfl⟩ := List.append_of_mem h
  rw [List.perm_middle.pairwise_iff fun h => h.symm] at distinct
  rw [select?_perm List.perm_middle]
  refine select?_cons_exact fun n hn same => List.rel_of_pairwise_cons distinct hn ?_
  unfold Signature.slot
  rw [same, named n (List.perm_middle.mem_iff.2 (List.mem_cons_of_mem m hn))]

end Registry

end TypeSynthesis
