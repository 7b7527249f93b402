import TypeSynthesis.Proofs.Overload.Selection

/-!
# Dominance among candidates

Candidates are ranked by the sum of what their conversions cost.  The ranking agrees with the
subtype order: an argument of known type converts at no greater cost to a parameter type that is
more specific.

* `Conversion.NoWorse`, `conversion?_mono`: the order of conversions, and its agreement with the
  subtype order;
* `Registry.Viable`, `Registry.Dominates`: applicable candidates, and candidates that are at most
  another one at each position;
* `select?_dominance`: a candidate that dominates each other is selected, and one that another
  dominates is not.
-/

namespace TypeSynthesis

/-! ### Costs -/

/-- The conversion costs less, or the same and both or neither are exact. -/
def Conversion.NoWorse (c d : Conversion) : Prop :=
  c.cost < d.cost ∨ (c.cost = d.cost ∧ c.isExact = d.isExact)

/-- What is no worse at each position is no worse as a whole. -/
theorem Conversion.noWorse_totalCost {cs ds : List Conversion} (h : List.Forall₂ NoWorse cs ds) :
    totalCost cs < totalCost ds ∨
      (totalCost cs = totalCost ds ∧ cs.countP isExact = ds.countP isExact) := by
  induction h with
  | nil => exact .inr ⟨rfl, rfl⟩
  | @cons c d cs ds hcd _ ih =>
    simp only [totalCost, List.countP_cons]
    rcases hcd with hcd | ⟨hcost, hexact⟩
    · left
      omega
    · rw [hexact]
      omega

/-! ### Conversions between classes and interfaces -/

theorem Primitive.id_of_ofId? {t : TypeId} {p : Primitive} (h : Primitive.ofId? t = some p) :
    p.id = t := by
  obtain ⟨l₁, l₂, hl, -⟩ := List.lookup_eq_some_iff.1 h
  have hmem : (t, p) ∈ Primitive.index := by
    rw [hl]
    exact List.mem_append_right _ List.mem_cons_self
  obtain ⟨q, -, hq⟩ := List.mem_map.1 hmem
  cases hq
  rfl

/-- A value whose type is not the root type. -/
theorem TypeRef.id_ne_object {t : TypeRef} (h : t.isObject = false) (hvalue : t.isByRef = false) :
    t.id ≠ .object := by
  intro hid
  unfold TypeRef.isObject at h
  rw [hvalue, hid] at h
  cases h

namespace Registry

variable {R : Registry}

section Conversions

variable (hR : Layered R) {a p q : TypeRef} {e : Entry}
include hR

/-- No primitive has the identity of a class or an interface. -/
theorem ofId?_of_isReference {t : TypeId} (he : R.get? t = some e)
    (href : e.isReference = true) : Primitive.ofId? t = none := by
  cases hp : Primitive.ofId? t with
  | none => rfl
  | some p =>
    obtain ⟨e', he', hvalue⟩ := hR.primitive p
    rw [Primitive.id_of_ofId? hp, he] at he'
    cases he'
    rw [href] at hvalue
    cases hvalue

omit hR in
theorem conversion?_of_id_eq (ha : a.isByRef = false) (hq : q.isByRef = false)
    (hid : a.id = q.id) : R.conversion? a q = some .identity := by
  unfold conversion?
  rw [ha, hq, Bool.or_false, if_neg Bool.false_ne_true, if_pos hid]

omit hR in
/-- Where one side is no primitive, the hierarchy decides. -/
theorem conversion?_of_id_ne (ha : a.isByRef = false) (hq : q.isByRef = false)
    (hid : a.id ≠ q.id) (hobject : a.id ≠ .object)
    (hprimitive : Primitive.ofId? a.id = none ∨ Primitive.ofId? q.id = none) :
    R.conversion? a q =
      if q.id = .object then R.rootConversion? a.id
      else if R.isSubtype a.id q.id then some .referenceCast
      else none := by
  unfold conversion?
  rw [ha, hq, Bool.or_false, if_neg Bool.false_ne_true, if_neg hid, if_neg hobject]
  rcases hprimitive with h | h
  · rw [h]
  · rw [h]
    cases Primitive.ofId? a.id <;> rfl

/-- A class or an interface converts to the root type at the greatest cost, and besides to what it
is a subtype of. -/
theorem conversion?_of_isReference (ha : a.isByRef = false) (hq : q.isByRef = false)
    (hid : a.id ≠ q.id) (hobject : a.id ≠ .object) (he : R.get? a.id = some e)
    (href : e.isReference = true) {d : Conversion} (hd : R.conversion? a q = some d) :
    d = .rootCast ∨ d = .referenceCast := by
  have hroot : R.rootConversion? a.id = some .rootCast := by
    unfold rootConversion?
    rw [he]
    cases e <;> first | rfl | cases href
  rw [conversion?_of_id_ne ha hq hid hobject (.inl (ofId?_of_isReference hR he href)), hroot] at hd
  split at hd
  · exact .inl (Option.some.inj hd).symm
  · split at hd
    · exact .inr (Option.some.inj hd).symm
    · cases hd

/-- Only a type itself and its subtypes convert to a class or an interface other than the root
type. -/
theorem conversion?_to_isReference (ha : a.isByRef = false) (hp : p.isByRef = false)
    (hid : a.id ≠ p.id) (hobject : a.id ≠ .object) (hroot : p.id ≠ .object)
    (he : R.get? p.id = some e) (href : e.isReference = true) {c : Conversion}
    (hc : R.conversion? a p = some c) : R.isSubtype a.id p.id = true ∧ c = .referenceCast := by
  rw [conversion?_of_id_ne ha hp hid hobject (.inr (ofId?_of_isReference hR he href)),
    if_neg hroot] at hc
  split at hc
  · exact ⟨‹_›, (Option.some.inj hc).symm⟩
  · cases hc

omit hR in
theorem isByRef_of_conversion? (hp : p.isByRef = false) {c : Conversion}
    (hc : R.conversion? a p = some c) : a.isByRef = false := by
  unfold conversion? at hc
  rw [hp] at hc
  cases h : a.isByRef with
  | false => rfl
  | true => rw [h] at hc; cases hc

/-- A conversion to a more specific parameter is no worse.  If the parameters differ, the more
specific one is a class or an interface other than the root type, and so is an argument that
converts to it. -/
theorem conversion?_mono {c d : Conversion} (ha : a.isObject = false)
    (hpq : R.atMost p q = true) (hc : R.conversion? a p = some c)
    (hd : R.conversion? a q = some d) : c.NoWorse d := by
  by_cases heq : p = q
  · rw [heq, hd] at hc
    rw [Option.some.inj hc]
    exact .inr ⟨rfl, rfl⟩
  · simp only [atMost, Bool.or_eq_true, beq_iff_eq, heq, false_or, Bool.and_eq_true,
      Bool.not_eq_true'] at hpq
    obtain ⟨⟨hp, hq⟩, hsub⟩ := hpq
    have hid : p.id ≠ q.id := by
      intro hid
      rw [← TypeRef.element_eq hp, ← TypeRef.element_eq hq] at heq
      exact heq (congrArg TypeRef.value hid)
    obtain ⟨⟨e, he, href⟩, -⟩ := subtype_cases hsub hid
    have hproot : p.id ≠ .object := by
      intro h
      rw [h] at hsub
      exact hid (h.trans (hR.isSubtype_object hsub).symm)
    have haref := isByRef_of_conversion? hp hc
    have haroot := TypeRef.id_ne_object ha haref
    by_cases hap : a.id = p.id
    · -- the argument has the more specific type itself
      rw [conversion?_of_id_eq haref hp hap] at hc
      cases hc
      rw [← hap] at he hid
      left
      rcases conversion?_of_isReference hR haref hq hid haroot he href hd with rfl | rfl <;> decide
    · -- the argument stands below both parameters
      obtain ⟨hsubp, rfl⟩ := conversion?_to_isReference hR haref hp hap haroot hproot he href hc
      have haq : a.id ≠ q.id := by
        intro haq
        rw [haq] at hsubp
        exact hid (hR.isSubtype_antisymm hsub hsubp)
      obtain ⟨⟨e', he', href'⟩, -⟩ := subtype_cases hsubp hap
      rcases conversion?_of_isReference hR haref hq haq haroot he' href' hd with rfl | rfl
      · exact .inl (by decide)
      · exact .inr ⟨rfl, rfl⟩

omit hR in
/-- An argument of known type is never untyped. -/
theorem kind_of_conversion? {c : Conversion} (ha : a.isObject = false)
    (hc : R.conversion? a p = some c) : c.kind ≠ .untyped := by
  intro hk
  unfold conversion? at hc
  split at hc
  · split at hc
    · cases hc; cases hk
    · cases hc
  rename_i hvalue
  simp only [Bool.or_eq_true, not_or, Bool.not_eq_true] at hvalue
  split at hc
  · cases hc; cases hk
  split at hc
  · unfold Primitive.conversion? at hc
    split_ifs at hc <;> cases hc <;> cases hk
  split at hc
  · unfold rootConversion? at hc
    split at hc <;> cases hc <;> cases hk
  rw [if_neg (TypeRef.id_ne_object ha hvalue.1)] at hc
  split at hc
  · cases hc; cases hk
  · cases hc

end Conversions

/-! ### Candidates -/

/-- The arguments convert to the parameters of the signature. -/
def Viable (R : Registry) (args : List TypeRef) (m : Signature) : Prop :=
  (R.conversions? args m.params).isSome

/-- At each position the first signature has the same parameter type or, both by value, a
subtype. -/
def Dominates (R : Registry) (m n : Signature) : Prop :=
  List.Forall₂ (fun p q => R.atMost p q = true) m.params n.params

instance (R : Registry) (args : List TypeRef) (m : Signature) : Decidable (R.Viable args m) :=
  inferInstanceAs (Decidable (_ = true))

instance (R : Registry) (m n : Signature) : Decidable (R.Dominates m n) :=
  inferInstanceAs (Decidable (List.Forall₂ _ _ _))

theorem viable_iff {args : List TypeRef} {m : Signature} :
    R.Viable args m ↔ ∃ w, R.match? args m = some w := by
  unfold Viable match?
  cases R.conversions? args m.params with
  | none => simp
  | some cs => simp

/-- The conversions of the arguments are no worse at each position. -/
theorem conversions?_mono (hR : Layered R) {args ps qs : List TypeRef} {cs ds : List Conversion}
    (hargs : ∀ a ∈ args, a.isObject = false)
    (h : List.Forall₂ (fun p q => R.atMost p q = true) ps qs)
    (hcs : R.conversions? args ps = some cs) (hds : R.conversions? args qs = some ds) :
    List.Forall₂ Conversion.NoWorse cs ds := by
  induction h generalizing args cs ds with
  | nil =>
    cases args with
    | nil => cases hcs; cases hds; exact .nil
    | cons a args => cases hcs
  | cons hpq _ ih =>
    cases args with
    | nil => cases hcs
    | cons a args =>
      obtain ⟨c, cs', hc, hcs', rfl⟩ := conversions?_cons_eq_some_iff.1 hcs
      obtain ⟨d, ds', hd, hds', rfl⟩ := conversions?_cons_eq_some_iff.1 hds
      obtain ⟨ha, hargs⟩ := List.forall_mem_cons.1 hargs
      exact .cons (conversion?_mono hR ha hpq hc hd) (ih hargs hcs' hds')

/-- A candidate that dominates another costs less or ties with it. -/
theorem match?_mono (hR : Layered R) {args : List TypeRef} {m n : Signature}
    {v w : Match Signature} (hargs : ∀ a ∈ args, a.isObject = false) (h : R.Dominates m n)
    (hv : R.match? args m = some v) (hw : R.match? args n = some w) :
    v.cost < w.cost ∨ (v.cost = w.cost ∧ v.exactCount = w.exactCount) := by
  obtain ⟨cs, hcs, rfl⟩ := Option.map_eq_some_iff.1 hv
  obtain ⟨ds, hds, rfl⟩ := Option.map_eq_some_iff.1 hw
  exact Conversion.noWorse_totalCost (conversions?_mono hR hargs h hcs hds)

theorem hasUntyped_of_match? {args : List TypeRef} {m : Signature} {w : Match Signature}
    (hargs : ∀ a ∈ args, a.isObject = false) (hw : R.match? args m = some w) :
    w.hasUntyped = false := by
  obtain ⟨cs, hcs, rfl⟩ := Option.map_eq_some_iff.1 hw
  refine List.any_eq_false.2 fun c hc => ?_
  obtain ⟨a, ha, p, hp⟩ := exists_of_mem_conversions? hcs hc
  rw [beq_iff_eq]
  exact kind_of_conversion? (hargs a ha) hp

/-! ### Selection -/

/-- A candidate that dominates each other, with other parameters, is selected. -/
theorem select?_of_dominates (hR : Layered R) {args : List TypeRef} {m : Signature}
    {others : List Signature} (hargs : ∀ a ∈ args, a.isObject = false) (hm : R.Viable args m)
    (h : ∀ n ∈ others, R.Viable args n → m.params ≠ n.params ∧ R.Dominates m n) :
    R.select? (m :: others) args = some m := by
  obtain ⟨w, hw⟩ := viable_iff.1 hm
  obtain rfl := candidate_of_match? hw
  have happ : R.applicable (w.candidate :: others) args = w :: R.applicable others args :=
    List.filterMap_cons_some hw
  have hmem : w ∈ R.applicable (w.candidate :: others) args :=
    mem_applicable_iff.2 ⟨List.mem_cons_self, hw⟩
  have hother : ∀ n ∈ R.applicable others args, w.candidate.params ≠ n.candidate.params ∧
      R.Dominates w.candidate n.candidate := by
    intro n hn
    obtain ⟨hn, hv⟩ := mem_applicable_iff.1 hn
    exact h _ hn (viable_iff.2 ⟨n, hv⟩)
  have harity : ∀ n ∈ R.applicable others args, w.candidate.arity = n.candidate.arity :=
    fun n hn => (arity_of_mem_applicable hmem).trans (arity_of_mem_applicable hn).symm
  have hspecific : ∀ n ∈ R.applicable others args,
      R.atLeastAsSpecific w.candidate n.candidate = true :=
    fun n hn => (atLeastAsSpecific_iff (harity n hn)).2 (hother n hn).2
  -- the candidate is among the best, and whatever else is loses to it
  have hfirst : ∀ n ∈ R.applicable others args, ¬ n.Better w := by
    intro n hn
    have := match?_mono hR hargs (hother n hn).2 hw (mem_applicable_iff.1 hn).2
    unfold Match.Better
    omega
  obtain ⟨tied, htied, hsub⟩ := bestMatches_cons hfirst
  have hsole : R.winners (w :: tied) = [w] := by
    refine winners_cons (fun n hn => hspecific n (hsub hn)) fun n hn hnw => ?_
    have hn := hsub hn
    exact (hother n hn).1 (params_eq_of_specific hR (harity n hn) (hspecific n hn) hnw)
  refine select?_eq_some_iff.2 ⟨w, ?_, rfl, .inr fun n hn => ?_⟩
  · rw [happ, htied, hsole]
  · exact hasUntyped_of_match? hargs (mem_applicable_iff.1 (mem_bestMatches_iff.1 hn).1).2

/-- No candidate with other parameters dominates the one that is selected. -/
theorem not_dominates_of_select? (hR : Layered R) {args : List TypeRef} {C : List Signature}
    {m n : Signature} (hargs : ∀ a ∈ args, a.isObject = false)
    (h : R.select? C args = some m) (hn : n ∈ C) (hviable : R.Viable args n)
    (hparams : n.params ≠ m.params) : ¬ R.Dominates n m := by
  intro hdominates
  obtain ⟨w, hw, rfl, -⟩ := select?_eq_some_iff.1 h
  obtain ⟨hbest, hwin⟩ := of_winners_eq hw
  obtain ⟨happ, hfirst⟩ := mem_bestMatches_iff.1 hbest
  obtain ⟨v, hv⟩ := viable_iff.1 hviable
  obtain rfl := candidate_of_match? hv
  have hvapp := mem_applicable_iff.2 ⟨hn, hv⟩
  rcases match?_mono hR hargs hdominates hv (mem_applicable_iff.1 happ).2 with hcost | htied
  · exact hfirst v hvapp (.inl hcost)
  · have hvbest := mem_bestMatches_of_tied hbest hvapp ⟨htied.1.symm, htied.2.symm⟩
    have harity : v.candidate.arity = w.candidate.arity :=
      (arity_of_mem_applicable hvapp).trans (arity_of_mem_applicable happ).symm
    exact hparams (params_eq_of_specific hR harity ((atLeastAsSpecific_iff harity).2 hdominates)
      (hwin v hvbest))

end Registry

end TypeSynthesis
