import TypeSynthesis.Proofs.Hierarchy.Persistence
import TypeSynthesis.Proofs.Resolve.Heads
import TypeSynthesis.Proofs.Synthesis.Owners

/-!
# Super calls go to the nearest declaration

A super call of a proxy is bound among the methods that the base of the proxy shows, where a
declaration hides those of its slot further up.

* `Registry.Nearest R t b m`: along the base classes above `t`, the type `b` is the first that
  declares the slot of the method `m`;
* `Layered.exists_declarer`: the first of a slot in the lineage of a class is declared by the
  nearest class that declares the slot;
* `bindSuperCall_nearest`: a super call is bound to a method that the nearest declarer above the
  proxy declares.

A class may be registered over an interface as if it were its base.  Then the methods of the
interface are shown as they are, static ones included.  A method that a class lists as that of
another type is called there, wherever that type stands.
-/

namespace TypeSynthesis

open Registry Relation

namespace Registry

variable {R : Registry} {args params : List TypeRef} {candidates : List Signature}
  {m : Signature} {t u b : TypeId}

theorem viable_of_select? (h : R.select? candidates args = some m) : R.Viable args m := by
  obtain ⟨w, hw, rfl, -⟩ := select?_eq_some_iff.1 h
  exact viable_iff.2
    ⟨w, (mem_applicable_iff.1 (mem_bestMatches_iff.1 (of_winners_eq hw).1).1).2⟩

/-- Where arguments convert to parameters, there are as many of both, and each argument converts to
the parameter in its place. -/
theorem forall₂_of_conversions? {cs : List Conversion} (h : R.conversions? args params = some cs) :
    List.Forall₂ (fun a p => (R.conversion? a p).isSome = true) args params := by
  induction args generalizing params cs with
  | nil =>
    cases params with
    | nil => exact .nil
    | cons p params => cases h
  | cons a args ih =>
    cases params with
    | nil => cases h
    | cons p params =>
      obtain ⟨d, ds, hd, hds, -⟩ := conversions?_cons_eq_some_iff.1 h
      exact .cons (by rw [hd]; rfl) (ih hds)

/-! ### The classes above a class -/

/-- A class shows the first of each slot in its lineage. -/
theorem mem_methodsOf_iff {c : ClassType} (hc : R.class? t = some c) :
    m ∈ R.methodsOf t ↔ m.Leads ((R.lineage t).flatMap ClassType.instanceMethods) := by
  unfold methodsOf
  rw [get?_of_class? hc, mem_firstPerSlot_iff, and_iff_right List.not_mem_nil]

theorem HasBase.unique (h : R.HasBase t b) (h' : R.HasBase t u) : b = u := by
  obtain ⟨c, hc, hb⟩ := h
  obtain ⟨c', hc', hu⟩ := h'
  rw [hc] at hc'
  cases hc'
  exact Option.some.inj (hb.symm.trans hu)

theorem hasBase_of_derives (h : R.Derives t b) : R.HasBase t b ∧ ∃ c, R.class? b = some c := by
  obtain ⟨c, d, hc, hb, hd⟩ := derives_iff.1 h
  exact ⟨⟨c, hc, hb⟩, d, hd⟩

theorem Layered.not_hasBase_self (hR : Layered R) (t : TypeId) : ¬ TransGen R.HasBase t t := by
  obtain ⟨rank, hrank⟩ := hR.ranked
  have descends {t u : TypeId} (htu : TransGen R.HasBase t u) : rank u < rank t := by
    refine TransGen.trans_induction_on htu (fun h => ?_) fun _ _ h₁ h₂ => h₂.trans h₁
    obtain ⟨c, hc, hb⟩ := h
    exact hrank _ _ (above_base (get?_of_class? hc) hb)
  exact fun h => Nat.lt_irrefl _ (descends h)

/-- From the type `t` upwards along base classes, the type `b` is the first that declares the slot
of the method `m`, and `m` is a method that it lists. -/
structure Declarer (R : Registry) (t b : TypeId) (m : Signature) : Prop where
  reached : ReflTransGen R.HasBase t b
  lists : ∃ e, R.get? b = some e ∧ m ∈ e.methods
  first {u : TypeId} {c : ClassType} (hu : ReflTransGen R.HasBase t u)
    (hb : TransGen R.HasBase u b) (hc : R.class? u = some c) :
    ∀ n ∈ c.instanceMethods, n.slot ≠ m.slot

/-- What a type lists itself, it declares first, unless it is above itself. -/
theorem Layered.declarer_self (hR : Layered R) {e : Entry} (he : R.get? t = some e)
    (hm : m ∈ e.methods) : R.Declarer t t m where
  reached := .refl
  lists := ⟨e, he, hm⟩
  first hu hb := absurd (hb.trans_right hu) (hR.not_hasBase_self _)

/-- The first method of its slot in the lineage of a class is declared by the class or by one above
it, and the slot by none of the classes before.  The induction is on the walk to the root. -/
theorem Layered.exists_declarer (hR : Layered R) {c : ClassType} (hc : R.class? t = some c)
    (leads : m.Leads ((R.lineage t).flatMap ClassType.instanceMethods)) :
    ∃ b d, R.class? b = some d ∧ m ∈ d.instanceMethods ∧ R.Declarer t b m := by
  have own {t : TypeId} {c : ClassType} (hc : R.class? t = some c) (hm : m ∈ c.instanceMethods) :
      ∃ b d, R.class? b = some d ∧ m ∈ d.instanceMethods ∧ R.Declarer t b m :=
    ⟨t, c, hc, hm, hR.declarer_self (get?_of_class? hc) (List.mem_filter.1 hm).1⟩
  obtain ⟨l, walk⟩ : ∃ l, R.BaseChain t l := ⟨_, baseChain_ancestors hR.acyclic t⟩
  induction walk generalizing c with
  | @stop t top =>
    rw [lineage_of_top hc top, List.flatMap_cons, List.flatMap_nil, List.append_nil] at leads
    exact own hc leads.mem
  | @step t b l derives _ ih =>
    obtain ⟨base, c', hc'⟩ := hasBase_of_derives derives
    rw [lineage_of_derives hR.acyclic hc derives, List.flatMap_cons] at leads
    rcases Signature.leads_append_iff.1 leads with first | ⟨none, later⟩
    · exact own hc first.mem
    · obtain ⟨o, d, ho, hm, declarer⟩ := ih hc' later
      refine ⟨o, d, ho, hm, declarer.reached.head base, declarer.lists, fun {u e} hu hb he => ?_⟩
      rcases ReflTransGen.cases_head hu with rfl | ⟨v, step, rest⟩
      · -- the slot is not among those of the class itself
        rw [hc] at he
        cases he
        exact none
      · obtain rfl := base.unique step
        exact declarer.first rest hb he

/-- Along the base classes above the class `t`, the type `b` is the nearest that declares the slot
of the method `m`, and `m` is a method that it lists. -/
structure Nearest (R : Registry) (t b : TypeId) (m : Signature) : Prop where
  above : TransGen R.HasBase t b
  strict : b ≠ t
  lists : ∃ e, R.get? b = some e ∧ m ∈ e.methods
  first {u : TypeId} {c : ClassType} (hu : TransGen R.HasBase t u)
    (hb : TransGen R.HasBase u b) (hc : R.class? u = some c) :
    ∀ n ∈ c.instanceMethods, n.slot ≠ m.slot

theorem Layered.nearest_of_declarer (hR : Layered R) {base : TypeId} (hbase : R.HasBase t base)
    (h : R.Declarer base b m) : R.Nearest t b m where
  above := .head' hbase h.reached
  strict := by
    rintro rfl
    exact hR.not_hasBase_self b (.head' hbase h.reached)
  lists := h.lists
  first hu hb hc := by
    obtain ⟨v, step, rest⟩ := TransGen.head'_iff.1 hu
    obtain rfl := hbase.unique step
    exact h.first rest hb hc

/-- What a base shows, the nearest type above its subclass declares that declares the slot.  It
belongs to objects unless the base is an interface. -/
theorem Layered.nearest_of_mem_methodsOf (hR : Layered R) {base : TypeId}
    (hbase : R.HasBase t base) (hm : m ∈ R.methodsOf base) :
    ∃ b, R.Nearest t b m ∧ (m.isStatic = true → b = base ∧ R.isInterface base = true) := by
  have shown := hm
  unfold methodsOf at hm
  split at hm
  · rename_i c hc
    have hc : R.class? base = some c := class?_eq_some_iff.2 hc
    obtain ⟨b, d, hd, hm, declarer⟩ := hR.exists_declarer hc ((mem_methodsOf_iff hc).1 shown)
    have belongs : m.isStatic = false := by simpa using (List.mem_filter.1 hm).2
    refine ⟨b, hR.nearest_of_declarer hbase declarer, fun static => ?_⟩
    rw [belongs] at static
    cases static
  · rename_i i hi
    exact ⟨base, hR.nearest_of_declarer hbase (hR.declarer_self hi hm),
      fun _ => ⟨rfl, isInterface_iff.2 ⟨i, hi⟩⟩⟩
  · cases hm

end Registry

/-! ### Bound super calls -/

/-- The super call is bound to the method `m`, which has the name that is asked for and a parameter
for each argument, to which the static type of the argument converts, or the root type where that is
unknown.  The method is declared by the nearest declarer above the class of the self-reference,
which is bound by `proxy` and is the target of the call. -/
structure BindsNearest (R : Registry) (here : Scope) (span : Span) (method selfName : String)
    (args : List Node) (n : Node) (proxy : Binding) (m : Signature) : Prop where
  inView : here.get? selfName = some proxy
  bound : n =
    .baseCall span m.declaring m (.localRef span selfName .objectSelf (some proxy.type) none) args
  nearest : R.Nearest proxy.type.id m.declaring m
  named : m.name = method
  converts : List.Forall₂ (fun a p => (R.conversion? (a.staticType?.getD .object) p).isSome = true)
    args m.params

/-- In a registry that grows from that of the host, each new type above registered ones, and whose
types declare the methods that they list, a super call is only ever bound to the nearest declarer
above the class of the self-reference, so never to the class itself.  The method belongs to objects,
unless it is static in an interface that the class was registered over. -/
theorem bindSuperCall_nearest {R : Registry} (grown : Grown R) (owned : R.Owned) {here : Scope}
    {span : Span} {method selfName : String} {args : List Node} {n : Node}
    (h : bindSuperCall R here span method selfName args = .ok n) :
    ∃ proxy m, BindsNearest R here span method selfName args n proxy m ∧
      (m.isStatic = true →
        R.HasBase proxy.type.id m.declaring ∧ R.isInterface m.declaring = true) := by
  obtain ⟨self, base, m, hself, hbase, selected, rfl⟩ := bindSuperCall_eq_ok_iff.1 h
  have hbase : R.HasBase self.type.id base := Option.bind_eq_some_iff.1 hbase
  obtain ⟨shown, named⟩ := List.mem_filter.1 (mem_of_select? selected).1
  obtain ⟨b, nearest, static⟩ :=
    (layered_of_grown grown).nearest_of_mem_methodsOf hbase shown
  obtain ⟨e, he, listed⟩ := nearest.lists
  obtain rfl : m.declaring = b := owned he m listed
  obtain ⟨cs, hcs⟩ := Option.isSome_iff_exists.1 (viable_of_select? selected)
  refine ⟨self, m, ⟨hself, rfl, nearest, beq_iff_eq.1 named, ?_⟩, fun isStatic => ?_⟩
  · exact List.forall₂_map_left_iff.1 (forall₂_of_conversions? hcs)
  · obtain ⟨same, interface⟩ := static isStatic
    rw [same]
    exact ⟨hbase, interface⟩

/-! ### A logged file over a stream -/

namespace Registry

/-- Types declare the methods that they list if those in a list of all of them do. -/
theorem Sound.owned {R : Registry} (sound : R.Sound)
    (own : ∀ e ∈ R.entries, ∀ m ∈ e.methods, m.declaring = e.id) : R.Owned := by
  intro t e he m hm
  rw [← sound.filed he]
  exact own e (mem_entries he) m hm

/-- A stream to which numbers and texts are written, a file that writes texts in its own way, and a
class over the file that intercepts all writing. -/
def streams : Registry := host.addAll
  [.classType (ClassType.declare
      (ClassType.declare { name := "Stream", base? := some .object }
        "Write" .overridable .void [.value Primitive.long.id])
      "Write" .overridable .void [.value .string]),
    .classType (ClassType.declare { name := "File", base? := some (.ofName "Stream") }
      "Write" .overridable .void [.value .string]),
    .classType (ClassType.declare
      (ClassType.declare { name := "LoggedFile", base? := some (.ofName "File") }
        "Write" .implementation .void [.value Primitive.long.id])
      "Write" .implementation .void [.value .string])]

theorem grown_streams : Grown streams := Grown.host.addAll (by decide +kernel)

end Registry

/-- The scope in which a self-reference of a class is in view. -/
def selfOf (name : String) : Scope :=
  Scope.empty.bind "this" ⟨.value (.ofName name), ⟨.objectSelf, .unknown⟩⟩

/-- The call of the method `m` on this reference. -/
def callOn (name : String) (m : Signature) (args : List Node) : Node :=
  .baseCall .unknown m.declaring m
    (.localRef .unknown "this" .objectSelf (some (.value (.ofName name))) none) args

theorem bindSuperCall_selfOf {R : Registry} {name method : String} {base : TypeId}
    {m : Signature} {args : List Node}
    (hbase : (R.class? (.ofName name)).bind ClassType.base? = some base)
    (selected : R.select? ((R.methodsOf base).filter (·.name == method))
      (args.map Node.argumentType) = some m) :
    bindSuperCall R (selfOf name) .unknown method "this" args = .ok (callOn name m args) :=
  bindSuperCall_eq_ok_iff.2 ⟨_, base, m, rfl, hbase, selected, rfl⟩

/-- What a class writes of one type. -/
def write (owner : String) (value : TypeId) : Signature :=
  ⟨"Write", .ofName owner, [.value value], .void, .overridable⟩

/-- A number, which the file does not write in its own way, is written by the stream. -/
theorem bindSuperCall_nearest_streams :
    ∃ proxy m, BindsNearest streams (selfOf "LoggedFile") .unknown "Write" "this"
        [.const .unknown (.int 1)]
        (callOn "LoggedFile" (write "Stream" Primitive.long.id) [.const .unknown (.int 1)])
        proxy m ∧
      m = write "Stream" Primitive.long.id := by
  have owned : streams.Owned := grown_streams.sound.owned (by decide +kernel)
  have base : (streams.class? (.ofName "LoggedFile")).bind ClassType.base? =
      some (.ofName "File") := by
    decide +kernel
  have bound : bindSuperCall streams (selfOf "LoggedFile") .unknown "Write" "this"
      [.const .unknown (.int 1)] =
        .ok (callOn "LoggedFile" (write "Stream" Primitive.long.id) [.const .unknown (.int 1)]) :=
    bindSuperCall_selfOf base (by decide +kernel)
  obtain ⟨proxy, m, binds, -⟩ := bindSuperCall_nearest grown_streams owned bound
  exact ⟨proxy, m, binds, (Node.baseCall.inj binds.bound).2.2.1.symm⟩

/-! ### A base that is no class, and a method of another type -/

namespace Registry

/-- A class that is registered over an interface with a static method. -/
def robots : Registry := host.addAll
  [.interfaceType (InterfaceType.withMethod { name := "Device" }
      ⟨"run", .object, [], .void, { isPublic := true, isStatic := true }⟩),
    .classType { name := "Robot", base? := some (.ofName "Device") }]

theorem grown_robots : Grown robots := Grown.host.addAll (by decide +kernel)

/-- A class that lists a method as that of another type, and one that derives from it. -/
def borrowers : Registry := host.addAll
  [.classType { name := "Borrower", base? := some .object,
                methods := [⟨"run", .ofName "Lender", [], .void, .overridable⟩] },
    .classType { name := "Proxy", base? := some (.ofName "Borrower") }]

theorem grown_borrowers : Grown borrowers := Grown.host.addAll (by decide +kernel)

end Registry

/-- A super call may be bound to a static method, of an interface that a class was registered over.
Where a type lists a method that it does not declare, the call names a type that need not be above
the class. -/
theorem not_bindSuperCall_nearest :
    (¬ ∀ (R : Registry) (here : Scope) (span : Span) (method selfName : String)
        (args : List Node) (n : Node), Grown R → R.Owned →
        bindSuperCall R here span method selfName args = .ok n →
        ∃ proxy m, BindsNearest R here span method selfName args n proxy m ∧
          m.isStatic = false) ∧
    (¬ ∀ (R : Registry) (here : Scope) (span : Span) (method selfName : String)
        (args : List Node) (n : Node), Grown R →
        bindSuperCall R here span method selfName args = .ok n →
        ∃ proxy m, BindsNearest R here span method selfName args n proxy m) := by
  constructor
  · intro h
    let run : Signature :=
      ⟨"run", .ofName "Device", [], .void, { isPublic := true, isStatic := true }⟩
    have owned : robots.Owned := grown_robots.sound.owned (by decide +kernel)
    have base : (robots.class? (.ofName "Robot")).bind ClassType.base? =
        some (.ofName "Device") := by
      decide +kernel
    have bound : bindSuperCall robots (selfOf "Robot") .unknown "run" "this" [] =
        .ok (callOn "Robot" run []) :=
      bindSuperCall_selfOf base (by decide +kernel)
    obtain ⟨proxy, m, binds, belongs⟩ := h _ _ _ _ _ _ _ grown_robots owned bound
    have same : run = m := (Node.baseCall.inj binds.bound).2.2.1
    rw [← same] at belongs
    cases belongs
  · intro h
    let run : Signature := ⟨"run", .ofName "Lender", [], .void, .overridable⟩
    have base : (borrowers.class? (.ofName "Proxy")).bind ClassType.base? =
        some (.ofName "Borrower") := by
      decide +kernel
    have bound : bindSuperCall borrowers (selfOf "Proxy") .unknown "run" "this" [] =
        .ok (callOn "Proxy" run []) :=
      bindSuperCall_selfOf base (by decide +kernel)
    obtain ⟨proxy, m, binds⟩ := h _ _ _ _ _ _ _ grown_borrowers bound
    have same : run = m := (Node.baseCall.inj binds.bound).2.2.1
    obtain ⟨e, he, -⟩ := binds.nearest.lists
    have unknown : borrowers.get? run.declaring = none := by decide +kernel
    rw [← same, unknown] at he
    cases he

end TypeSynthesis
