import TypeSynthesis.Proofs.Hierarchy.Search
import TypeSynthesis.Proofs.Overload.Exact
import TypeSynthesis.Proofs.Registry.Instantiation
import TypeSynthesis.Proofs.Synthesis.Implement

/-!
# Owner-qualified members

A supplied method may say which interface declares the member that it implements.

* `MemberName.ofText_qualified`: how a qualified name is read;
* `Registry.Owned`, `Registry.Built.owned`: types declare the methods that they list;
* `Registry.declarations`, `Registry.LeadsTo`: what an interface and all that it extends declare, in
  the order of the search, and the methods that are the first of their slot there;
* `Registry.Owned.mem_named_iff`: the candidates that fit a qualified name;
* `MethodHead.AsksFor`, `SynthM.resolveMethod_ownerQualified`: with the exact parameter types, a
  qualified name resolves to the owner's method if some requested interface leads to it, and to no
  other owner's in any case.

Each slot counts once in the hierarchy of a requested interface.  A method that is declared again
before its owner is reached is therefore hidden, even under its owner's name
(`SynthM.not_resolveMethod_ownerQualified`).  The results are about registries in which no class is
above itself once the hints are resolved, for otherwise a walk to the base classes, which collects
the candidates and compares their parameters, may have no end.
-/

namespace TypeSynthesis

open Registry

/-! ### Qualified names -/

/-- A qualified name is split between the owner and the member. -/
theorem MemberName.ofText_qualified {owner member : String} (owner_ne : owner ≠ "")
    (member_ne : member ≠ "") (undotted : '.' ∉ member.toList) :
    ofText (owner ++ "." ++ member) = ⟨some owner, member⟩ := by
  have letters : (owner ++ "." ++ member).toList.reverse =
      member.toList.reverse ++ '.' :: owner.toList.reverse := by
    simp
  have inMember : ∀ c ∈ member.toList.reverse, decide (c ≠ '.') = true := by
    intro c hc
    refine decide_eq_true ?_
    rintro rfl
    exact undotted (List.mem_reverse.1 hc)
  have taken : (owner ++ "." ++ member).toList.reverse.takeWhile (· ≠ '.') =
      member.toList.reverse := by
    rw [letters, List.takeWhile_append_of_pos inMember]
    simp
  have dropped : (owner ++ "." ++ member).toList.reverse.dropWhile (· ≠ '.') =
      '.' :: owner.toList.reverse := by
    rw [letters, List.dropWhile_append_of_pos inMember]
    simp
  have someMember : member.toList.isEmpty = false := by
    simpa using member_ne
  unfold ofText
  dsimp only
  rw [taken, dropped]
  cases rest : owner.toList.reverse with
  | nil => exact absurd (by simpa using rest) owner_ne
  | cons c cs =>
    dsimp only
    rw [List.reverse_reverse, someMember, ← rest, List.reverse_reverse]
    simp

/-! ### Owners -/

namespace Registry

variable {R : Registry} {i j base : TypeId} {J : InterfaceType} {m n : Signature}

/-- Types declare the methods that they list. -/
def Owned (R : Registry) : Prop :=
  ∀ ⦃t : TypeId⦄ ⦃e : Entry⦄, R.get? t = some e → ∀ m ∈ e.methods, m.declaring = t

/-- What an interface and all that it extends declare, in the order of the search. -/
def declarations (R : Registry) (i : TypeId) : List Signature :=
  ((i :: R.allInterfaces i).filterMap R.interface?).flatMap InterfaceType.methods

/-- In the hierarchy of the interface `i`, the method `m` is the first of its slot. -/
def LeadsTo (R : Registry) (i : TypeId) (m : Signature) : Prop := m.Leads (R.declarations i)

instance (R : Registry) (i : TypeId) (m : Signature) : Decidable (R.LeadsTo i m) :=
  inferInstanceAs (Decidable (m.Leads _))

/-- Instances declare the methods that they list. -/
def OwnInstances (R : Registry) : Prop :=
  ∀ ⦃t : TypeId⦄ ⦃i : InterfaceType⦄, R.interface? t = some i → i.isInstance = true →
    ∀ m ∈ i.methods, m.declaring = t

theorem maintained_ownInstances : Maintained OwnInstances where
  register {R S e} h plain registers := by
    obtain ⟨-, -, rfl⟩ := register_eq_ok_iff.1 registers
    intro t i hi isInstance
    rw [interface?_add] at hi
    split at hi
    · rw [asInterface?_eq_some_iff.1 hi] at plain
      simp [Operation.isPlain, isInstance] at plain
    · exact h hi isInstance
  provide {R e} h other := by
    unfold Registry.provide
    split
    · exact h
    · intro t i hi
      rw [interface?_add, other] at hi
      split at hi
      · cases hi
      · exact h hi
  instantiate {R S t u args} h made := by
    obtain ⟨-, i, s, -, -, -, ⟨-, rfl⟩ | registers⟩ := instantiate_cases made
    · exact h
    · obtain ⟨-, -, rfl⟩ := register_eq_ok_iff.1 registers
      intro t' j hj isInstance m hm
      rw [interface?_add] at hj
      split at hj
      · rename_i same
        cases hj
        obtain ⟨m', -, rfl⟩ := List.mem_map.1 hm
        exact same.symm
      · exact h hj isInstance m hm

/-- If the definitions that are registered declare the methods that they list, then all types do,
for instances do it by themselves. -/
theorem Built.owned (built : R.Built)
    (own : ∀ e ∈ R.entries, (Operation.register e).isPlain = true →
      ∀ m ∈ e.methods, m.declaring = e.id) : R.Owned := by
  have instances : R.OwnInstances := by
    refine maintained_ownInstances.of_built (fun start hs t i hi isInstance => ?_) built
    have none := (provides_of_mem_starts hs).instanceOf?_eq_none hi
    simp [InterfaceType.isInstance, none] at isInstance
  intro t e he m hm
  rw [← built.sound.filed he]
  by_cases plain : (Operation.register e).isPlain = true
  · exact own e (mem_entries he) plain m hm
  · cases e with
    | interfaceType i =>
      have isInstance : i.isInstance = true := by simpa [Operation.isPlain] using plain
      rw [built.sound.filed he]
      exact instances (Option.bind_eq_some_iff.2 ⟨_, he, rfl⟩) isInstance m hm
    | _ => exact absurd rfl plain

theorem mem_interfaceMethods_iff : m ∈ R.interfaceMethods i ↔ R.LeadsTo i m := by
  unfold interfaceMethods LeadsTo declarations
  rw [mem_firstPerSlot_iff]
  exact and_iff_right List.not_mem_nil

/-- An interface leads to the first method of each slot among its own. -/
theorem leadsTo_self (h : R.interface? j = some J) (first : m.Leads J.methods) :
    R.LeadsTo j m := by
  unfold LeadsTo declarations
  rw [List.filterMap_cons_some h, List.flatMap_cons]
  exact first.append _

namespace Owned

variable (owned : R.Owned)
include owned

theorem declaring_eq (h : R.interface? j = some J) (hm : m ∈ J.methods) : m.declaring = j :=
  owned (get?_of_interface? h) m hm

/-- What is listed in a hierarchy is declared by an interface. -/
theorem exists_interface_of_leadsTo (h : R.LeadsTo i m) :
    ∃ J, R.interface? m.declaring = some J ∧ m ∈ J.methods := by
  obtain ⟨J, hJ, hm⟩ := List.mem_flatMap.1 h.mem
  obtain ⟨j, -, hj⟩ := List.mem_filterMap.1 hJ
  rw [owned.declaring_eq hj hm]
  exact ⟨J, hj, hm⟩

/-- The first of its slot in a hierarchy is the first of its slot in the interface that declares
it. -/
theorem leads_of_leadsTo (h : R.LeadsTo i m) (hJ : R.interface? m.declaring = some J) :
    m.Leads J.methods := by
  unfold LeadsTo declarations at h
  generalize i :: R.allInterfaces i = is at h
  induction is with
  | nil => cases h
  | cons k is ih =>
    cases hk : R.interface? k with
    | none =>
      rw [List.filterMap_cons_none hk] at h
      exact ih h
    | some K =>
      rw [List.filterMap_cons_some hk, List.flatMap_cons] at h
      unfold Signature.Leads at h
      rw [List.find?_append] at h
      rcases Option.or_eq_some_iff.1 h with first | ⟨-, later⟩
      · have owner := owned.declaring_eq hk (List.mem_of_find?_eq_some first)
        rw [owner, hk] at hJ
        rw [← Option.some.inj hJ]
        exact first
      · exact ih later

/-- What a base type passes on is its own or that of a class. -/
theorem of_mem_overridableMethodsOf (h : m ∈ R.overridableMethodsOf base) :
    ∃ e, R.get? m.declaring = some e ∧ (m.declaring = base ∨ e.asInterface? = none) := by
  have h := (List.mem_filter.1 h).1
  unfold methodsOf at h
  split at h
  · obtain ⟨c, hc, hm⟩ := List.mem_flatMap.1 (mem_of_mem_firstPerSlot h)
    obtain ⟨t, -, ht⟩ := List.mem_filterMap.1 hc
    have ht := get?_of_class? ht
    have owner := owned ht m (List.mem_filter.1 hm).1
    exact ⟨_, owner ▸ ht, .inr rfl⟩
  · rename_i e he
    have owner := owned he m h
    exact ⟨_, owner ▸ he, .inl owner⟩
  · cases h

end Owned

end Registry

/-! ### Qualified candidates -/

theorem Candidates.mem_named_iff {c : Candidates} {R : Registry} {name : MemberName}
    {m : Signature} : m ∈ c.named R name ↔ m.Leads (c.signatures.filter (fits R name)) := by
  unfold named
  rw [mem_firstPerSlot_iff]
  exact and_iff_right List.not_mem_nil

namespace Registry

variable {R S : Registry} {base j : TypeId} {J : InterfaceType} {requested : List TypeId}
  {m : Signature}

/-- A candidate comes from the base, or a requested interface leads to it. -/
theorem mem_collect_iff : m ∈ (Candidates.collect R base requested).signatures ↔
    m ∈ R.overridableMethodsOf base ∨ ∃ i ∈ requested, R.LeadsTo i m := by
  unfold Candidates.collect
  simp only [List.mem_append, List.mem_flatMap, mem_interfaceMethods_iff]

/-- The owner's name leads to the owner alone, also in a later registry where no type has displaced
another. -/
theorem Owned.typeName_declaring_iff (owned : R.Owned) (sound : R.Sound) (grows : R.Grows S)
    (distinct : S.Distinct) (declared : R.interface? j = some J)
    (hm : m ∈ (Candidates.collect R base requested).signatures) :
    S.typeName m.declaring = J.name ↔ m.declaring = j := by
  have interface := get?_of_interface? declared
  obtain ⟨e, he⟩ : ∃ e, R.get? m.declaring = some e := by
    rcases mem_collect_iff.1 hm with inherited | ⟨i, -, leads⟩
    · obtain ⟨e, he, -⟩ := owned.of_mem_overridableMethodsOf inherited
      exact ⟨e, he⟩
    · obtain ⟨K, hK, -⟩ := owned.exists_interface_of_leadsTo leads
      exact ⟨_, get?_of_interface? hK⟩
  have kept := get?_eq_of_grows sound grows distinct fun _ => contains_eq_true_iff.2 ⟨e, he⟩
  unfold typeName
  rw [kept, he]
  show e.name = J.name ↔ _
  constructor
  · intro name
    have listed := sound.listed he
    rw [name] at listed
    exact Option.some.inj (listed.symm.trans (sound.listed interface))
  · intro owner
    rw [owner, interface] at he
    cases he
    rfl

/-- The candidates that an interface declares are those that some requested interface leads to. -/
theorem Owned.leads_of_mem_collect (owned : R.Owned) (declared : R.interface? j = some J)
    (other : j ≠ base) (hm : m ∈ (Candidates.collect R base requested).signatures)
    (owner : m.declaring = j) : (∃ i ∈ requested, R.LeadsTo i m) ∧ m.Leads J.methods := by
  have leads : ∃ i ∈ requested, R.LeadsTo i m := by
    refine (mem_collect_iff.1 hm).resolve_left fun inherited => ?_
    obtain ⟨e, he, isBase | isClass⟩ := owned.of_mem_overridableMethodsOf inherited
    · exact other (owner.symm.trans isBase)
    · rw [owner, get?_of_interface? declared] at he
      cases he
      cases isClass
  obtain ⟨i, hi, first⟩ := leads
  exact ⟨⟨i, hi, first⟩, owned.leads_of_leadsTo first (owner ▸ declared)⟩

/-- Among the candidates with an owner-qualified name are exactly the owner's methods of that name
which some requested interface leads to. -/
theorem Owned.mem_named_iff (owned : R.Owned) (sound : R.Sound) (grows : R.Grows S)
    (distinct : S.Distinct) (declared : R.interface? j = some J) (other : j ≠ base)
    {member : String} :
    m ∈ (Candidates.collect R base requested).named S ⟨some J.name, member⟩ ↔
      m.name = member ∧ m.declaring = j ∧ ∃ i ∈ requested, R.LeadsTo i m := by
  let candidates := Candidates.collect R base requested
  have fitting {n : Signature} :
      n ∈ candidates.signatures.filter (Candidates.fits S ⟨some J.name, member⟩) ↔
        n ∈ candidates.signatures ∧ n.name = member ∧ n.declaring = j := by
    rw [List.mem_filter]
    refine and_congr_right fun hn => ?_
    rw [← owned.typeName_declaring_iff sound grows distinct declared hn]
    simp [Candidates.fits]
  rw [Candidates.mem_named_iff]
  constructor
  · intro first
    obtain ⟨hm, name, owner⟩ := fitting.1 first.mem
    exact ⟨name, owner, (owned.leads_of_mem_collect declared other hm owner).1⟩
  · rintro ⟨name, owner, leads⟩
    have hm : m ∈ candidates.signatures := mem_collect_iff.2 (.inr leads)
    obtain ⟨n, first, slot⟩ := Signature.exists_leads (fitting.2 ⟨hm, name, owner⟩)
    -- another one with the slot would come first among the owner's own methods as well
    obtain ⟨hn, -, owner'⟩ := fitting.1 first.mem
    have same : n = m := (owned.leads_of_mem_collect declared other hn owner').2.unique
      (owned.leads_of_mem_collect declared other hm owner).2 slot
    exact same ▸ first

end Registry

/-! ### Resolution -/

/-- The supplied method `given` asks for the method `m` of the interface `J`, which is not the base:
its name is that of the method, qualified by the interface, and its hints, resolved in some session
after the candidates were collected, denote exactly the parameter types. -/
structure MethodHead.AsksFor (given : MethodHead) (R : Registry) (base : TypeId)
    (construct : String) (j : TypeId) (J : InterfaceType) (m : Signature) (s t : Session) :
    Prop where
  declared : R.interface? j = some J
  listed : m ∈ J.methods
  other : j ≠ base
  written : given.name = J.name ++ "." ++ m.name
  undotted : '.' ∉ m.name.toList
  grows : R.Grows s.registry
  hints : given.params.mapM (fun p => SynthM.resolveHint construct p.hint?) s = .ok m.params t

namespace SynthM

variable {R : Registry} {construct : String} {base j : TypeId} {J : InterfaceType}
  {requested : List TypeId} {m : Signature} {given : MethodHead} {s t : Session}

/-- A supplied method that asks for a method of an interface resolves to it exactly if, in the
hierarchy of some requested interface, no other method of its slot comes before it.  So it does
where the interface is requested itself.  In no case does it resolve to another owner's method.  It
is assumed that the types declare the methods that they list, and that no two names share an
identity and no class is above itself once the hints are resolved.  Then all walks to base classes
end, before and after. -/
theorem resolveMethod_ownerQualified (sound : R.Sound) (owned : R.Owned)
    (asks : given.AsksFor R base construct j J m s t) (named : J.name ≠ "" ∧ m.name ≠ "")
    (distinct : t.registry.Distinct) (acyclic : t.registry.Acyclic) :
    (R.WalksEnd ∧ t.registry.WalksEnd) ∧
    (resolveMethod construct (.collect R base requested) given s = .ok m t ↔
      ∃ i ∈ requested, R.LeadsTo i m) ∧
    (j ∈ requested → m.Leads J.methods →
      resolveMethod construct (.collect R base requested) given s = .ok m t) ∧
    ∀ sig u, resolveMethod construct (.collect R base requested) given s = .ok sig u →
      sig ∈ J.methods := by
  have later : R.Grows t.registry :=
    asks.grows.trans ((Moves.mapM (fun p : Param =>
      Session.grows_respected.hint construct p.hint?) _).of_ok asks.hints)
  let candidates := (Candidates.collect R base requested).named t.registry ⟨some J.name, m.name⟩
  have candidate {sig : Signature} : sig ∈ candidates ↔
      sig.name = m.name ∧ sig.declaring = j ∧ ∃ i ∈ requested, R.LeadsTo i sig :=
    owned.mem_named_iff sound later distinct asks.declared asks.other
  have resolves {sig : Signature} {u : Session} :
      resolveMethod construct (.collect R base requested) given s = .ok sig u ↔
        u = t ∧ t.registry.select? candidates m.params = some sig := by
    rw [resolveMethod_eq_ok_iff, asks.hints, asks.written,
      MemberName.ofText_qualified named.1 named.2 asks.undotted]
    constructor
    · rintro ⟨args, same, selected⟩
      cases same
      exact ⟨rfl, selected⟩
    · rintro ⟨rfl, selected⟩
      exact ⟨m.params, rfl, selected⟩
  have reached : resolveMethod construct (.collect R base requested) given s = .ok m t ↔
      ∃ i ∈ requested, R.LeadsTo i m := by
    rw [resolves, and_iff_right rfl]
    constructor
    · intro selected
      exact (candidate.1 (Registry.mem_of_select? selected).1).2.2
    · intro leads
      have mem := candidate.2 ⟨rfl, owned.declaring_eq asks.declared asks.listed, leads⟩
      exact Registry.select?_exact mem (fun n hn => (candidate.1 hn).1) (pairwise_firstPerSlot _ _)
  have ends : R.WalksEnd ∧ t.registry.WalksEnd :=
    ⟨acyclic_iff_walksEnd.1 (acyclic.of_grows sound later distinct),
      acyclic_iff_walksEnd.1 acyclic⟩
  refine ⟨ends, reached,
    fun asked first => reached.2 ⟨j, asked, leadsTo_self asks.declared first⟩, fun sig u h => ?_⟩
  obtain ⟨-, owner, i, -, leads⟩ := candidate.1 (Registry.mem_of_select? (resolves.1 h).2).1
  exact (owned.leads_of_leadsTo leads (owner ▸ asks.declared)).mem

/-- The host's registry with further types. -/
def hostWith (es : List Entry) : Registry := (es.map .register).foldl Operation.after host

theorem built_hostWith {es : List Entry}
    (plain : ∀ e ∈ es, (Operation.register e).isPlain = true) : (hostWith es).Built := by
  refine ⟨host, by simp, es.map .register, fun o ho => ?_, rfl⟩
  obtain ⟨e, he, rfl⟩ := List.mem_map.1 ho
  exact plain e he

/-- Whether a supplied method asks for a method over the host's registry with further types, and the
registry in which its hints are resolved passes a test. -/
def asksOver (es : List Entry) (given : MethodHead) (j : TypeId) (J : InterfaceType)
    (m : Signature) (q : Registry → Bool) : Bool :=
  decide ((∀ e ∈ es, (Operation.register e).isPlain = true) ∧
    (∀ e ∈ (hostWith es).entries, ∀ m ∈ e.methods, m.declaring = e.id) ∧
    (hostWith es).interface? j = some J ∧ m ∈ J.methods ∧ j ≠ .object ∧
    given.name = J.name ++ "." ++ m.name ∧ '.' ∉ m.name.toList) &&
  accepted (fun args t => decide (args = m.params) && q t.registry)
    (given.params.mapM (fun p => resolveHint "" p.hint?) { registry := hostWith es })

theorem of_asksOver {es : List Entry} {q : Registry → Bool}
    (h : asksOver es given j J m q = true) :
    (hostWith es).Built ∧ (hostWith es).Owned ∧
      ∃ t, given.AsksFor (hostWith es) .object "" j J m { registry := hostWith es } t ∧
        q t.registry = true := by
  obtain ⟨conditions, run⟩ := Bool.and_eq_true_iff.1 h
  obtain ⟨plain, own, declared, listed, other, written, undotted⟩ :=
    of_decide_eq_true conditions
  obtain ⟨args, t, hints, h⟩ := exists_of_accepted run
  obtain ⟨same, test⟩ := Bool.and_eq_true_iff.1 h
  have built := built_hostWith plain
  refine ⟨built, built.owned fun e he _ => own e he, t, ?_, test⟩
  exact ⟨declared, listed, other, written, undotted, .refl, of_decide_eq_true same ▸ hints⟩

/-- A method with one parameter, as its owner declares it. -/
def unaryMethod (owner member : String) (param : TypeId) : Signature :=
  { name := member, declaring := .ofName owner, params := [.value param], result := .void,
    attributes := .interface }

/-- An interface that declares one method besides what it extends. -/
def unaryInterface (name : String) (bases : List TypeId) (member : String) (param : TypeId) :
    InterfaceType :=
  { name, bases, methods := [unaryMethod name member param] }

/-- A supplied method with one parameter. -/
def unarySupplied (name hint : String) : MethodHead :=
  { name, params := [{ name := "n", hint? := some ⟨hint, .unknown⟩ }], captures := .empty }

/-- Two interfaces that declare the same method, and two that extend the first one.  The last one
declares the method again. -/
def runners : List Entry :=
  [.interfaceType (unaryInterface "IRun" [] "run" Primitive.int.id),
   .interfaceType (unaryInterface "IWalk" [] "run" Primitive.int.id),
   .interfaceType { name := "ISprint", bases := [.ofName "IRun"] },
   .interfaceType (unaryInterface "IDash" [.ofName "IRun"] "run" Primitive.int.id)]

/-- Whether no two names share an identity. -/
def apartNames (R : Registry) : Bool := decide R.names.values.Nodup

theorem distinct_of_apartNames (h : apartNames R = true) : R.Distinct :=
  distinct_of_nodup (of_decide_eq_true h)

/-- Whether each class comes after its base. -/
def basesFirst (R : Registry) : Bool :=
  decide (∀ t ∈ R.types.keys, ∀ b ∈ R.baseClass? t,
    R.types.keys.idxOf b < R.types.keys.idxOf t)

theorem acyclic_of_basesFirst (h : basesFirst R = true) : R.Acyclic :=
  acyclic_of_ordered (of_decide_eq_true h)

/-- Whether no two names share an identity, and each class comes after its base. -/
def orderly (R : Registry) : Bool := apartNames R && basesFirst R

theorem of_orderly (h : orderly R = true) : R.Distinct ∧ R.Acyclic := by
  obtain ⟨apart, ordered⟩ := Bool.and_eq_true_iff.1 h
  exact ⟨distinct_of_apartNames apart, acyclic_of_basesFirst ordered⟩

theorem asksOver_runners :
    asksOver runners (unarySupplied "IRun.run" "int") (.ofName "IRun")
      (unaryInterface "IRun" [] "run" Primitive.int.id)
      (unaryMethod "IRun" "run" Primitive.int.id) orderly = true := by
  decide +kernel

theorem resolveMethod_ownerQualified_runners : ∃ t,
    resolveMethod "" (.collect (hostWith runners) .object [.ofName "IWalk", .ofName "ISprint"])
      (unarySupplied "IRun.run" "int") { registry := hostWith runners } =
        .ok (unaryMethod "IRun" "run" Primitive.int.id) t := by
  obtain ⟨built, owned, t, asks, test⟩ := of_asksOver asksOver_runners
  obtain ⟨distinct, acyclic⟩ := of_orderly test
  refine ⟨t, (resolveMethod_ownerQualified built.sound owned asks (by decide +kernel) distinct
    acyclic).2.1.2 ?_⟩
  decide +kernel

/-- An interface without a name, and one with a method that has none. -/
def unnamed : List Entry :=
  [.interfaceType (unaryInterface "" [] "run" Primitive.int.id),
   .interfaceType (unaryInterface "IRun" [] "" Primitive.int.id)]

/-- An interface whose identity is that of a pointer type as well, and the pointee. -/
def displaceable : List Entry :=
  [.classType { name := "QlunqgbaYVbLoin" },
   .interfaceType (unaryInterface "Catalog.EntryKey" [] "run" (.ofName "QlunqgbaYVbLoin*"))]

/-- Whether a supplied method is refused over the host's registry with further types. -/
def refusedOver (es : List Entry) (requested : List TypeId) (given : MethodHead) : Bool :=
  !accepted (fun _ _ => true)
    (resolveMethod "" (.collect (hostWith es) .object requested) given { registry := hostWith es })

theorem ne_ok_of_refusedOver {es : List Entry} (h : refusedOver es requested given = true) :
    resolveMethod "" (.collect (hostWith es) .object requested) given
      { registry := hostWith es } ≠ .ok m t := by
  intro resolves
  unfold refusedOver at h
  rw [resolves] at h
  cases h

/-- Two classes that are the base of each other, a further class, and an interface with a method
that takes one of the two and one of the same name that takes the third. -/
def circling : List Entry :=
  [.classType { name := "Hen", base? := some (.ofName "Egg") },
   .classType { name := "Egg", base? := some (.ofName "Hen") },
   .classType { name := "Coin" },
   .interfaceType
    { name := "IMarket"
      methods := [unaryMethod "IMarket" "sell" (.ofName "Hen"),
        unaryMethod "IMarket" "sell" (.ofName "Coin")] }]

/-- Whether the two classes are the base of each other. -/
def circles (R : Registry) : Bool :=
  decide (R.baseClass? (.ofName "Hen") = some (.ofName "Egg") ∧
    R.baseClass? (.ofName "Egg") = some (.ofName "Hen"))

theorem not_baseChain_of_circles (h : circles R = true) :
    ¬ ∃ chain, R.BaseChain (.ofName "Hen") chain := by
  obtain ⟨hen, egg⟩ := of_decide_eq_true h
  rintro ⟨chain, walk⟩
  exact walk.not_above_self (.tail (.single hen) egg)

/-- A method that another interface declares before it is out of reach, even under its owner's name.
So is one whose owner or itself has the empty name, and one whose owner is displaced by a type that
has the same identity.  Where one that takes a class of a circle is asked for by its exact type, the
walk from this class, by which overloads are told apart, has no end. -/
theorem not_resolveMethod_ownerQualified :
    (¬ ∀ (R : Registry) (construct : String) (base j : TypeId) (J : InterfaceType)
      (requested : List TypeId) (m : Signature) (given : MethodHead) (s t : Session), R.Built →
      R.Owned → given.AsksFor R base construct j J m s t → J.name ≠ "" ∧ m.name ≠ "" →
      t.registry.Distinct ∧ t.registry.Acyclic → m.Leads J.methods →
      (∃ i ∈ requested, j ∈ R.allInterfaces i) →
      resolveMethod construct (.collect R base requested) given s = .ok m t) ∧
    (¬ ∀ (R : Registry) (construct : String) (base j : TypeId) (J : InterfaceType)
      (requested : List TypeId) (m : Signature) (given : MethodHead) (s t : Session), R.Built →
      R.Owned → given.AsksFor R base construct j J m s t → m.name ≠ "" →
      t.registry.Distinct ∧ t.registry.Acyclic → m.Leads J.methods → j ∈ requested →
      resolveMethod construct (.collect R base requested) given s = .ok m t) ∧
    (¬ ∀ (R : Registry) (construct : String) (base j : TypeId) (J : InterfaceType)
      (requested : List TypeId) (m : Signature) (given : MethodHead) (s t : Session), R.Built →
      R.Owned → given.AsksFor R base construct j J m s t → J.name ≠ "" →
      t.registry.Distinct ∧ t.registry.Acyclic → m.Leads J.methods → j ∈ requested →
      resolveMethod construct (.collect R base requested) given s = .ok m t) ∧
    (¬ ∀ (R : Registry) (construct : String) (base j : TypeId) (J : InterfaceType)
      (requested : List TypeId) (m : Signature) (given : MethodHead) (s t : Session), R.Built →
      R.Owned → given.AsksFor R base construct j J m s t → J.name ≠ "" ∧ m.name ≠ "" →
      t.registry.Acyclic → m.Leads J.methods → j ∈ requested →
      resolveMethod construct (.collect R base requested) given s = .ok m t) ∧
    (¬ ∀ (R : Registry) (construct : String) (base j : TypeId) (J : InterfaceType)
      (requested : List TypeId) (m : Signature) (given : MethodHead) (s t : Session), R.Built →
      R.Owned → given.AsksFor R base construct j J m s t → J.name ≠ "" ∧ m.name ≠ "" →
      t.registry.Distinct → m.Leads J.methods → j ∈ requested →
      ∀ p ∈ m.params, ∃ chain, t.registry.BaseChain p.id chain) := by
  refine ⟨fun h => ?_, fun h => ?_, fun h => ?_, fun h => ?_, fun h => ?_⟩
  · have refused : refusedOver runners [.ofName "IDash"] (unarySupplied "IRun.run" "int") =
        true := by
      decide +kernel
    obtain ⟨built, owned, t, asks, test⟩ := of_asksOver asksOver_runners
    exact ne_ok_of_refusedOver refused (h _ _ _ _ _ _ _ _ _ _ built owned asks
      (by decide +kernel) (of_orderly test) (by decide +kernel) (by decide +kernel))
  · have refused : refusedOver unnamed [.ofName ""] (unarySupplied ".run" "int") = true := by
      decide +kernel
    have asked : asksOver unnamed (unarySupplied ".run" "int") (.ofName "")
        (unaryInterface "" [] "run" Primitive.int.id) (unaryMethod "" "run" Primitive.int.id)
        orderly = true := by
      decide +kernel
    obtain ⟨built, owned, t, asks, test⟩ := of_asksOver asked
    exact ne_ok_of_refusedOver refused (h _ _ _ _ _ _ _ _ _ _ built owned asks
      (by decide +kernel) (of_orderly test) (by decide +kernel) (by decide +kernel))
  · have refused : refusedOver unnamed [.ofName "IRun"] (unarySupplied "IRun." "int") = true := by
      decide +kernel
    have asked : asksOver unnamed (unarySupplied "IRun." "int") (.ofName "IRun")
        (unaryInterface "IRun" [] "" Primitive.int.id) (unaryMethod "IRun" "" Primitive.int.id)
        orderly = true := by
      decide +kernel
    obtain ⟨built, owned, t, asks, test⟩ := of_asksOver asked
    exact ne_ok_of_refusedOver refused (h _ _ _ _ _ _ _ _ _ _ built owned asks
      (by decide +kernel) (of_orderly test) (by decide +kernel) (by decide +kernel))
  · have refused : refusedOver displaceable [.ofName "Catalog.EntryKey"]
        (unarySupplied "Catalog.EntryKey.run" "QlunqgbaYVbLoin*") = true := by
      decide +kernel
    have asked : asksOver displaceable (unarySupplied "Catalog.EntryKey.run" "QlunqgbaYVbLoin*")
        (.ofName "Catalog.EntryKey")
        (unaryInterface "Catalog.EntryKey" [] "run" (.ofName "QlunqgbaYVbLoin*"))
        (unaryMethod "Catalog.EntryKey" "run" (.ofName "QlunqgbaYVbLoin*")) basesFirst = true := by
      decide +kernel
    obtain ⟨built, owned, t, asks, test⟩ := of_asksOver asked
    exact ne_ok_of_refusedOver refused (h _ _ _ _ _ _ _ _ _ _ built owned asks
      (by decide +kernel) (acyclic_of_basesFirst test) (by decide +kernel) (by decide +kernel))
  · let market : InterfaceType :=
      { name := "IMarket"
        methods := [unaryMethod "IMarket" "sell" (.ofName "Hen"),
          unaryMethod "IMarket" "sell" (.ofName "Coin")] }
    have asked : asksOver circling (unarySupplied "IMarket.sell" "Hen") (.ofName "IMarket") market
        (unaryMethod "IMarket" "sell" (.ofName "Hen")) (fun R => apartNames R && circles R) =
          true := by
      decide +kernel
    obtain ⟨built, owned, t, asks, test⟩ := of_asksOver asked
    obtain ⟨apart, circle⟩ := Bool.and_eq_true_iff.1 test
    have walk := h _ _ _ _ _ [.ofName "IMarket"] _ _ _ _ built owned asks (by decide +kernel)
      (distinct_of_apartNames apart) (by decide +kernel) (by decide +kernel)
    exact not_baseChain_of_circles circle (walk _ List.mem_cons_self)

end SynthM

end TypeSynthesis
