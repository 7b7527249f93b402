import TypeSynthesis.Proofs.Hierarchy.Preorder
import TypeSynthesis.Proofs.Synthesis.Owners

/-!
# Candidates under an unqualified name

The candidates of a requested interface count each slot once, and those that fit a member name count
each slot once again.  Together the two passes are one.

* `firstPerSlot_firstPerSlot`, `firstPerSlot_flatMap`: a pass over what other passes left;
* `firstPerSlot_filter`: a pass before a selection that takes slots as a whole;
* `Candidates.named_unqualified`: the candidates under a name are the first ones of their slots
  among the base's overridable methods and, for each requested interface, what it and all that it
  extends declare, in depth-first preorder.

An interface is visited before the search of what it extends, which does not know it: where it
extends itself in a circle, the search enters it once more (`Candidates.not_named_unqualified`).
-/

namespace TypeSynthesis

open Registry

/-! ### Passes over passes -/

section Passes

variable {seen seen' : List TypeId} {ms ns : List Signature} {t : TypeId}

theorem firstPerSlot_congr (h : ∀ t, t ∈ seen ↔ t ∈ seen') (ms : List Signature) :
    firstPerSlot seen ms = firstPerSlot seen' ms := by
  induction ms generalizing seen seen' with
  | nil => rfl
  | cons m ms ih =>
    by_cases hm : m.slot ∈ seen
    · rw [firstPerSlot_cons_of_mem hm, firstPerSlot_cons_of_mem ((h _).1 hm), ih h]
    · have more (t : TypeId) : t ∈ m.slot :: seen ↔ t ∈ m.slot :: seen' := by
        simp only [List.mem_cons, h]
      rw [firstPerSlot_cons_of_not_mem hm, firstPerSlot_cons_of_not_mem (mt (h _).2 hm), ih more]

/-- A slot that no signature has need not be remembered. -/
theorem firstPerSlot_cons_seen (h : ∀ n ∈ ms, n.slot ≠ t) :
    firstPerSlot (t :: seen) ms = firstPerSlot seen ms := by
  induction ms generalizing seen with
  | nil => rfl
  | cons m ms ih =>
    have other := h m List.mem_cons_self
    have rest : ∀ n ∈ ms, n.slot ≠ t := fun n hn => h n (List.mem_cons_of_mem m hn)
    by_cases hm : m.slot ∈ seen
    · rw [firstPerSlot_cons_of_mem hm, firstPerSlot_cons_of_mem (List.mem_cons_of_mem t hm),
        ih rest]
    · have hm' : m.slot ∉ t :: seen := by simp [other, hm]
      have swap : firstPerSlot (m.slot :: t :: seen) ms = firstPerSlot (t :: m.slot :: seen) ms :=
        firstPerSlot_congr (fun u => by simp only [List.mem_cons]; exact or_left_comm) ms
      rw [firstPerSlot_cons_of_not_mem hm, firstPerSlot_cons_of_not_mem hm', swap, ih rest]

/-- What comes later in a list is passed with the slots of what comes before. -/
theorem firstPerSlot_append (seen : List TypeId) (ms ns : List Signature) :
    firstPerSlot seen (ms ++ ns) =
      firstPerSlot seen ms ++ firstPerSlot (ms.map Signature.slot ++ seen) ns := by
  induction ms generalizing seen with
  | nil => rfl
  | cons m ms ih =>
    rw [List.cons_append]
    by_cases hm : m.slot ∈ seen
    · rw [firstPerSlot_cons_of_mem hm, firstPerSlot_cons_of_mem hm, ih]
      refine congrArg _ (firstPerSlot_congr (fun t => ?_) ns)
      rw [List.map_cons, List.cons_append, List.mem_cons, iff_or_self]
      rintro rfl
      exact List.mem_append_right _ hm
    · rw [firstPerSlot_cons_of_not_mem hm, firstPerSlot_cons_of_not_mem hm, ih, List.cons_append]
      refine congrArg _ (congrArg _ (firstPerSlot_congr (fun t => ?_) ns))
      simp only [List.map_cons, List.cons_append, List.mem_append, List.mem_cons]
      exact or_left_comm

/-- A pass over what another pass left, which remembered no more slots, is a pass over the whole
list. -/
theorem firstPerSlot_firstPerSlot (h : seen ⊆ seen') (ms : List Signature) :
    firstPerSlot seen' (firstPerSlot seen ms) = firstPerSlot seen' ms := by
  induction ms generalizing seen seen' with
  | nil => rfl
  | cons m ms ih =>
    by_cases hm : m.slot ∈ seen
    · rw [firstPerSlot_cons_of_mem hm, firstPerSlot_cons_of_mem (h hm), ih h]
    · rw [firstPerSlot_cons_of_not_mem hm]
      by_cases hm' : m.slot ∈ seen'
      · rw [firstPerSlot_cons_of_mem hm', firstPerSlot_cons_of_mem hm',
          ih (List.cons_subset.2 ⟨hm', h⟩)]
      · rw [firstPerSlot_cons_of_not_mem hm', firstPerSlot_cons_of_not_mem hm',
          ih (List.cons_subset_cons _ h)]

theorem mem_slots_firstPerSlot :
    t ∈ (firstPerSlot [] ms).map Signature.slot ↔ t ∈ ms.map Signature.slot := by
  simp only [List.mem_map, mem_firstPerSlot_iff]
  constructor
  · rintro ⟨m, ⟨-, leads⟩, slot⟩
    exact ⟨m, leads.mem, slot⟩
  · rintro ⟨m, hm, rfl⟩
    obtain ⟨n, leads, slot⟩ := Signature.exists_leads hm
    exact ⟨n, ⟨List.not_mem_nil, leads⟩, slot⟩

/-- A pass over the results of several passes is a pass over their lists. -/
theorem firstPerSlot_flatMap {α : Type} (f : α → List Signature) (seen : List TypeId)
    (as : List α) :
    firstPerSlot seen (as.flatMap fun a => firstPerSlot [] (f a)) =
      firstPerSlot seen (as.flatMap f) := by
  induction as generalizing seen with
  | nil => rfl
  | cons a as ih =>
    rw [List.flatMap_cons, List.flatMap_cons, firstPerSlot_append, firstPerSlot_append, ih,
      firstPerSlot_firstPerSlot (List.nil_subset _)]
    refine congrArg _ (firstPerSlot_congr (fun t => ?_) _)
    rw [List.mem_append, List.mem_append, mem_slots_firstPerSlot]

/-- A selection that takes all signatures of a slot or none may be made before the pass. -/
theorem firstPerSlot_filter {p : Signature → Bool}
    (whole : ∀ m ∈ ms, ∀ n ∈ ms, p m = true → n.slot = m.slot → p n = true) :
    (firstPerSlot seen ms).filter p = firstPerSlot seen (ms.filter p) := by
  induction ms generalizing seen with
  | nil => rfl
  | cons m ms ih =>
    have rest := fun k hk n hn =>
      whole k (List.mem_cons_of_mem m hk) n (List.mem_cons_of_mem m hn)
    by_cases hm : m.slot ∈ seen <;> by_cases taken : p m = true
    · rw [firstPerSlot_cons_of_mem hm, List.filter_cons_of_pos taken, firstPerSlot_cons_of_mem hm,
        ih rest]
    · rw [firstPerSlot_cons_of_mem hm, List.filter_cons_of_neg taken, ih rest]
    · rw [firstPerSlot_cons_of_not_mem hm, List.filter_cons_of_pos taken,
        List.filter_cons_of_pos taken, firstPerSlot_cons_of_not_mem hm, ih rest]
    · rw [firstPerSlot_cons_of_not_mem hm, List.filter_cons_of_neg taken,
        List.filter_cons_of_neg taken, ih rest]
      refine firstPerSlot_cons_seen fun n hn slot => taken ?_
      obtain ⟨hn, selected⟩ := List.mem_filter.1 hn
      exact whole n (List.mem_cons_of_mem m hn) m List.mem_cons_self selected slot.symm

end Passes

/-! ### Unqualified candidates -/

namespace Candidates

variable {R S : Registry} {base : TypeId} {requested : List TypeId} {member : String}

/-- What the base and the requested interfaces offer before any slot is counted: the base's
overridable methods, then for each interface what it and all that it extends declare. -/
def offered (R : Registry) (base : TypeId) (requested : List TypeId) : List Signature :=
  R.overridableMethodsOf base ++ requested.flatMap R.declarations

/-- In the hierarchy of no requested interface does a method of another name fill the slot of one
with the name. -/
def NameApart (R : Registry) (requested : List TypeId) (member : String) : Prop :=
  ∀ i ∈ requested, ∀ m ∈ R.declarations i, ∀ n ∈ R.declarations i,
    m.name = member → n.slot = m.slot → n.name = member

instance (R : Registry) (requested : List TypeId) (member : String) :
    Decidable (NameApart R requested member) :=
  inferInstanceAs (Decidable (∀ _ ∈ _, ∀ _ ∈ _, ∀ _ ∈ _, _ → _ → _))

/-- The candidates under a name are, in order, the first ones of their slots among what the base and
the requested interfaces offer under this name.  Each requested interface stands before the
interfaces that its bases lead to, which are in depth-first preorder; with one that does not extend
itself, this is the depth-first preorder from it.  It is assumed that no method of another name
fills the slot of one with the name. -/
theorem named_unqualified (S : Registry) (base : TypeId) (apart : NameApart R requested member) :
    (collect R base requested).named S ⟨none, member⟩ =
      firstPerSlot [] ((offered R base requested).filter (·.name == member)) ∧
    (∀ m, m ∈ (collect R base requested).named S ⟨none, member⟩ ↔
      m.name = member ∧ m.Leads ((offered R base requested).filter (·.name == member))) ∧
    ((collect R base requested).named S ⟨none, member⟩).Pairwise (·.slot ≠ ·.slot) ∧
    (∀ i l, R.Preorder [] (R.namedInterfaces i) l ↔ l = R.allInterfaces i) ∧
    ∀ i l, R.isInterface i = true → i ∉ R.allInterfaces i →
      (R.Preorder [] [i] l ↔ l = i :: R.allInterfaces i) := by
  have fitting : fits S ⟨none, member⟩ = (·.name == member) := by
    funext m
    simp [fits]
  have once : (collect R base requested).named S ⟨none, member⟩ =
      firstPerSlot [] ((offered R base requested).filter (·.name == member)) := by
    have selected :
        requested.flatMap (fun i => (R.interfaceMethods i).filter (·.name == member)) =
          requested.flatMap fun i =>
            firstPerSlot [] ((R.declarations i).filter (·.name == member)) := by
      refine List.flatMap_congr fun i hi => firstPerSlot_filter fun m hm n hn name slot => ?_
      simpa using apart i hi m hm n hn (by simpa using name) slot
    unfold named collect offered
    rw [fitting, List.filter_append, List.filter_append, List.filter_flatMap, List.filter_flatMap,
      selected, firstPerSlot_append, firstPerSlot_append, firstPerSlot_flatMap]
  refine ⟨once, fun m => ?_, ?_, fun i l => ?_, fun i l known acyclic => ?_⟩
  · rw [once, mem_firstPerSlot_iff, and_iff_right List.not_mem_nil]
    refine (and_iff_right_of_imp fun leads => ?_).symm
    simpa using (List.mem_filter.1 leads.mem).2
  · rw [once]
    exact pairwise_firstPerSlot _ _
  · have walk := R.preorder_allInterfaces i
    exact ⟨fun h => h.unique walk, fun h => h ▸ walk⟩
  · have walk := preorder_cons_allInterfaces known acyclic
    exact ⟨fun h => h.unique walk, fun h => h ▸ walk⟩

theorem named_unqualified_runners :
    NameApart (SynthM.hostWith SynthM.runners) [.ofName "IDash", .ofName "IWalk"] "run" ∧
    (collect (SynthM.hostWith SynthM.runners) .object [.ofName "IDash", .ofName "IWalk"]).named
      (SynthM.hostWith SynthM.runners) ⟨none, "run"⟩ =
        [SynthM.unaryMethod "IDash" "run" Primitive.int.id] := by
  have apart : NameApart (SynthM.hostWith SynthM.runners) [.ofName "IDash", .ofName "IWalk"]
      "run" := by
    decide +kernel
  exact ⟨apart, (named_unqualified _ .object apart).1.trans (by decide +kernel)⟩

/-- An interface with two methods whose names and parameters have the same identity. -/
def sharedSlot : List Entry :=
  [.classType { name := "OjcpisesDvvpQVer" },
   .interfaceType
    { name := "IPair"
      methods := [SynthM.unaryMethod "IPair" "first" Primitive.int.id,
        SynthM.unaryMethod "IPair" "second" (.ofName "OjcpisesDvvpQVer")] }]

/-- Two interfaces that extend each other, and two that declare the same method. -/
def circle : List Entry :=
  [.interfaceType { name := "IHub", bases := [.ofName "IRim", .ofName "IWalk"] },
   .interfaceType { name := "IRim", bases := [.ofName "IHub", .ofName "IRun"] },
   .interfaceType (SynthM.unaryInterface "IRun" [] "run" Primitive.int.id),
   .interfaceType (SynthM.unaryInterface "IWalk" [] "run" Primitive.int.id)]

/-- From an interface that its first base extends in turn, the depth-first preorder takes up what
else the first base extends before the second base. -/
theorem preorder_of_circle {a b c d : TypeId} (ha : R.baseInterfaces a = [b, d])
    (hb : R.baseInterfaces b = [a, c]) (hc : R.baseInterfaces c = [])
    (hd : R.baseInterfaces d = []) (nodup : [a, b, c, d].Nodup) :
    R.Preorder [] [a] [a, b, c, d] := by
  simp only [List.nodup_cons, List.mem_cons, List.not_mem_nil, or_false, not_or] at nodup
  refine .enter List.not_mem_nil ?_
  rw [ha]
  refine .enter (by simp; tauto) ?_
  rw [hb]
  refine .skip (by simp) (.enter (by simp; tauto) ?_)
  rw [hc]
  refine .enter (by simp; tauto) ?_
  rw [hd]
  exact .done

/-- A method that fills the slot of an earlier one with another name is lost.  Where an interface
extends itself, what its first base leads to may come after what its second base leads to. -/
theorem not_named_unqualified :
    (¬ ∀ (R : Registry) (base : TypeId) (requested : List TypeId) (member : String), R.Built →
      (collect R base requested).named R ⟨none, member⟩ =
        firstPerSlot [] ((offered R base requested).filter (·.name == member))) ∧
    ¬ ∀ (R : Registry) (base : TypeId) (requested : List TypeId) (member : String)
      (hierarchy : TypeId → List TypeId), R.Built → NameApart R requested member →
      (∀ i ∈ requested, R.Preorder [] [i] (hierarchy i)) →
      (collect R base requested).named R ⟨none, member⟩ =
        firstPerSlot [] ((R.overridableMethodsOf base ++ requested.flatMap fun i =>
          ((hierarchy i).filterMap R.interface?).flatMap InterfaceType.methods).filter
            (·.name == member)) := by
  constructor
  · intro h
    have := h (SynthM.hostWith sharedSlot) .object [.ofName "IPair"] "second"
      (SynthM.built_hostWith (by decide))
    revert this
    decide +kernel
  · intro h
    let hierarchy : List TypeId :=
      [.ofName "IHub", .ofName "IRim", .ofName "IRun", .ofName "IWalk"]
    have walk : (SynthM.hostWith circle).Preorder [] [.ofName "IHub"] hierarchy :=
      preorder_of_circle (by decide +kernel) (by decide +kernel) (by decide +kernel)
        (by decide +kernel) (by decide +kernel)
    have := h (SynthM.hostWith circle) .object [.ofName "IHub"] "run" (fun _ => hierarchy)
      (SynthM.built_hostWith (by decide)) (by decide +kernel) fun i hi =>
        List.mem_singleton.1 hi ▸ walk
    revert this
    decide +kernel

end Candidates

end TypeSynthesis
