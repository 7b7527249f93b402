import TypeSynthesis.Proofs.Captures.Merge
import TypeSynthesis.Proofs.Names.Resolve

/-!
# Captures of objects

What an anonymous object or a proxy captures once it is resolved.

* `Capture.resolveIn`, `CaptureSet.get?_resolveIn`: one capture in view of a scope;
* `CaptureSet.OfObject`: a capture set fits the methods of an object and the scope around it;
* `CaptureSet.ofObject_merge`: merging what the methods capture leads to such a set;
* `ofObject_resolve`: so does resolution.

Each capture is looked up twice: inside the object, where its own name is bound to it, and then
outside.  Under any other name both look-ups find the same binding.
-/

namespace TypeSynthesis

open ResolveM

/-! ### Captures in view of a scope -/

namespace Capture

/-- The capture with the type and the site of the binding of its name, if there is one in view. -/
def resolveIn (c : Capture) (scope : Scope) : Capture :=
  match scope.get? c.name with
  | some b => { c with site? := some b.site, type? := some b.type }
  | none => c

variable {c : Capture} {scope : Scope} {b : Binding}

@[simp] theorem name_resolveIn (c : Capture) (scope : Scope) :
    (c.resolveIn scope).name = c.name := by
  unfold resolveIn
  split <;> rfl

@[simp] theorem isObjectSelf_resolveIn (c : Capture) (scope : Scope) :
    (c.resolveIn scope).isObjectSelf = c.isObjectSelf := by
  unfold resolveIn
  split <;> rfl

theorem resolveIn_of_get? (h : scope.get? c.name = some b) :
    c.resolveIn scope = { c with site? := some b.site, type? := some b.type } := by
  unfold resolveIn
  rw [h]

theorem resolveIn_of_free (h : scope.get? c.name = none) : c.resolveIn scope = c := by
  unfold resolveIn
  rw [h]

end Capture

namespace CaptureSet

variable {sets : List CaptureSet} {inner outside : Scope} {selfName name : String}

theorem toList_resolveIn (s : CaptureSet) (scope : Scope) :
    (s.resolveIn scope).toList = s.toList.map (·.resolveIn scope) := by
  refine List.map_congr_left fun c _ => ?_
  unfold Capture.resolveIn
  dsimp only
  cases scope.get? c.name <;> rfl

theorem get?_resolveIn (s : CaptureSet) (scope : Scope) (name : String) :
    (s.resolveIn scope).get? name = (s.get? name).map (·.resolveIn scope) := by
  unfold get?
  rw [toList_resolveIn, List.find?_map]
  simp only [Function.comp_def, Capture.name_resolveIn]

theorem contains_resolveIn (s : CaptureSet) (scope : Scope) (name : String) :
    (s.resolveIn scope).contains name = s.contains name := by
  unfold contains
  rw [get?_resolveIn, Option.isSome_map]

theorem records_resolveIn (sets : List CaptureSet) (scope : Scope) (name : String) :
    records (sets.map (·.resolveIn scope)) name =
      (records sets name).map (·.resolveIn scope) := by
  unfold records
  simp only [List.flatMap_map, toList_resolveIn, ← List.map_flatMap, List.filter_map,
    Function.comp_def, Capture.name_resolveIn]

/-! ### The captures of an object -/

/-- A capture set fits an object that calls itself `selfName`, whose methods were supplied with the
given captures and which stands in the scope `outside`.

Names other than the object's own are captured if a method captures them.  Captures of names that
are bound outside have the type and site of that binding; other ones are resolved if a method's
capture of the name was. -/
structure OfObject (captures : CaptureSet) (selfName : String) (supplied : List CaptureSet)
    (outside : Scope) : Prop where
  self : ∀ c ∈ captures.toList, c.isObjectSelf = true → c.name ≠ selfName
  captured : ∀ name ≠ selfName,
    captures.contains name = true ↔ ∃ s ∈ supplied, s.contains name = true
  bound : ∀ name c b, captures.get? name = some c → outside.get? name = some b →
    c.type? = some b.type ∧ c.site? = some b.site
  free : ∀ name c, name ≠ selfName → captures.get? name = some c → outside.get? name = none →
    (c.isResolved = true ↔ ∃ s ∈ supplied, ∃ d, s.get? name = some d ∧ d.isResolved = true)

/-- Captures of a name that is not in view stay as they are. -/
theorem records_resolveIn_of_free (free : inner.get? name = none) :
    records (sets.map (·.resolveIn inner)) name = records sets name := by
  rw [records_resolveIn]
  conv_rhs => rw [← List.map_id (records sets name)]
  refine List.map_congr_left fun c hc => Capture.resolveIn_of_free ?_
  rwa [name_of_mem_records hc]

/-- The merged captures of methods, first in view of the object and then of what is around it. -/
theorem ofObject_merge (around : ∀ name ≠ selfName, inner.get? name = outside.get? name) :
    ((merge (sets.map (·.resolveIn inner)) selfName).resolveIn outside).OfObject selfName sets
      outside where
  self c hc own := by
    rw [toList_resolveIn] at hc
    obtain ⟨d, hd, rfl⟩ := List.mem_map.1 hc
    rw [Capture.isObjectSelf_resolveIn] at own
    rw [Capture.name_resolveIn]
    intro same
    have dropped := (List.mem_filter.1 hd).2
    rw [own, same, beq_self_eq_true] at dropped
    cases dropped
  captured name other := by
    rw [contains_resolveIn, contains_merge_of_ne other]
    simp only [List.mem_map, exists_exists_and_eq_and, contains_resolveIn]
  bound name c b hc hb := by
    rw [get?_resolveIn] at hc
    obtain ⟨d, hd, rfl⟩ := Option.map_eq_some_iff.1 hc
    rw [← (get?_eq_some_iff.1 hd).2] at hb
    rw [Capture.resolveIn_of_get? hb]
    exact ⟨rfl, rfl⟩
  free name c other hc free := by
    -- Neither look-up finds the name, so the merge chooses from the captures as they were supplied.
    rw [get?_resolveIn, get?_merge_of_ne other,
      records_resolveIn_of_free ((around name other).trans free)] at hc
    obtain ⟨d, hd, rfl⟩ := Option.map_eq_some_iff.1 hc
    have named : d.name = name := name_of_mem_records (Capture.mem_of_head?_strongest hd)
    rw [Capture.resolveIn_of_free (named ▸ free), Capture.isResolved_of_head?_strongest hd]
    simp only [mem_records_iff]
    constructor
    · rintro ⟨e, ⟨s, hs, he⟩, resolved⟩
      exact ⟨s, hs, e, he, resolved⟩
    · rintro ⟨s, hs, e, he, resolved⟩
      exact ⟨e, ⟨s, hs, he⟩, resolved⟩

end CaptureSet

/-! ### Resolved objects -/

/-- The captures of methods are resolved in the scope in which the bodies of the methods are. -/
theorem captures_resolveMethods {p : Pipeline} {heads : List MethodHead} {ms ms' : List Method}
    {s t : ResolveState} (length : heads.length = ms.length)
    (h : resolveMethods p heads ms s = .ok ms' t) :
    ms'.map (fun m => m.head.captures) =
      (heads.map MethodHead.captures).map (·.resolveIn s.scope) := by
  induction heads generalizing ms ms' s t with
  | nil =>
    unfold resolveMethods at h
    obtain ⟨rfl, -⟩ := pure_eq_ok_iff.1 h
    rfl
  | cons head heads ih =>
    cases ms with
    | nil => cases length
    | cons m ms =>
      obtain ⟨_, body⟩ := m
      unfold resolveMethods at h
      obtain ⟨captures, u, hcaptures, h⟩ := bind_eq_ok_iff.1 h
      obtain ⟨body', v, hbody, h⟩ := bind_eq_ok_iff.1 h
      obtain ⟨rest, w, hrest, h⟩ := bind_eq_ok_iff.1 h
      obtain ⟨rfl, -⟩ := pure_eq_ok_iff.1 h
      cases hcaptures
      have same : SameScope s v := (scopeDiscipline.inScope
        ((scopeDiscipline.bindParams _).bind fun _ =>
          scopeDiscipline.toInner (scopeDiscipline.resolve p body))).of_ok hbody
      have rest := ih (Nat.succ.inj length) hrest
      rw [← same] at rest
      exact congrArg (head.captures.resolveIn s.scope :: ·) rest

/-- The captures of an anonymous object or a proxy fit its methods and the scope that it stands in:
they never hold its own reference to itself, but that of an object around it like any other
binding.  So it is with the resolved form that the lowerings are given, and those of the default
chain leave it as it is. -/
theorem ofObject_resolve {p : Pipeline} {span : Span} {head : ObjectHead} {ms : List Method}
    {n : Node} {s t : ResolveState} (h : (Node.object span head ms).resolve p s = .ok n t) :
    ∃ head' ms', p.lowerings.run t.session.registry (.object span head' ms') = .ok n ∧
      (p.lowerings = {} → n = .object span head' ms') ∧ head'.selfName = head.selfName ∧
      head'.captures.OfObject head.selfName (ms.map fun m => m.head.captures) s.scope := by
  unfold Node.resolve at h
  obtain ⟨⟨d, heads⟩, u, hd, h⟩ := bind_eq_ok_iff.1 h
  obtain ⟨ms', v, hms, h⟩ := bind_eq_ok_iff.1 h
  obtain ⟨captures, v', hcaptures, h⟩ := bind_eq_ok_iff.1 h
  obtain ⟨run, rfl⟩ := finish_eq_ok_iff.1 h
  cases hcaptures
  refine ⟨_, _, run, fun default => ?_, rfl, ?_⟩
  · rw [default] at run
    exact (Except.ok.inj run).symm
  have before : SameScope s u := (scopeDiscipline.objectOf ..).of_ok hd
  have after : SameScope u v := (scopeDiscipline.inScope ((scopeDiscipline.bindName ..).bind
    fun _ => scopeDiscipline.toInner (scopeDiscipline.methods p heads ms))).of_ok hms
  obtain ⟨w, hms, -⟩ := inScope_eq_ok hms
  obtain ⟨_, w', hself, hms⟩ := bind_eq_ok_iff.1 hms
  cases hself
  -- Inside, the object's own name is bound to the object, and all else is as it is outside.
  have around : ∀ name ≠ head.selfName, (s.scope.push.bind head.selfName
      ⟨d.type, .objectSelf, .unknown⟩).get? name = s.scope.get? name := by
    intro name other
    rw [Scope.get?_bind, if_neg other, Scope.get?_push]
  have supplied : heads.map MethodHead.captures = ms.map fun m => m.head.captures :=
    (captures_objectOf hd).trans List.map_map
  have length : heads.length = ms.length := by
    rw [length_objectOf hd, List.length_map]
  have inner := captures_resolveMethods length hms
  rw [supplied] at inner
  show ((CaptureSet.merge (ms'.map fun m => m.head.captures) head.selfName).resolveIn
    v.scope).OfObject _ _ _
  rw [inner, ← after, ← before]
  exact CaptureSet.ofObject_merge around

/-- A scope inside an exception that calls itself `outer`, where a text is bound to `x`. -/
def Scope.insideException : Scope :=
  (Scope.empty.bind "outer" ⟨.value Registry.exceptionClass.id, .objectSelf, .unknown⟩).bind "x"
    ⟨.value .string, .letBound, .unknown⟩

/-- A proxy whose methods capture the proxy, the object around it, a text, and a name that is not in
view and of which one method knows the type. -/
def Node.nestedProxy : Node :=
  .object .unknown
    { kind := .proxy, supers := [⟨"Exception", .unknown⟩, ⟨"sable.lang.IObj", .unknown⟩],
      selfName := "this", captures := .empty }
    [⟨{ name := "get_Message", self? := some { name := "this" },
        captures := .ofList [{ name := "this", role := .objectSelf },
          { name := "outer", role := .objectSelf }, { name := "y", role := .parameter }] },
        .localRef .unknown "x" .letBound none none⟩,
     ⟨{ name := "withMeta", params := [{ name := "m" }],
        captures := .ofList [{ name := "x", role := .letBound },
          { name := "y", role := .parameter, type? := some .object }] },
        .const .unknown .nil⟩]

/-- The proxy captures the object around it with the type of that object, and not itself. -/
theorem ofObject_resolve_nestedProxy :
    ∃ n t head' ms',
      Node.nestedProxy.resolve {} ⟨{ registry := .host }, .insideException⟩ = .ok n t ∧
      n = .object .unknown head' ms' ∧
      (∀ c ∈ head'.captures.toList, c.isObjectSelf = true → c.name ≠ "this") ∧
      (∃ c, head'.captures.get? "outer" = some c ∧
        c.type? = some (.value Registry.exceptionClass.id)) ∧
      ∃ c, head'.captures.get? "y" = some c ∧ c.isResolved = true := by
  have h : accepted (fun _ _ => true)
      (Node.nestedProxy.resolve {} ⟨{ registry := .host }, .insideException⟩) = true := by
    decide +kernel
  obtain ⟨n, t, h, -⟩ := exists_of_accepted h
  obtain ⟨head', ms', -, same, -, fits⟩ := ofObject_resolve h
  have outer := (fits.captured "outer" (by decide)).2 (by decide +kernel)
  have y := (fits.captured "y" (by decide)).2 (by decide +kernel)
  obtain ⟨c, hc⟩ := Option.isSome_iff_exists.1 outer
  obtain ⟨d, hd⟩ := Option.isSome_iff_exists.1 y
  exact ⟨n, t, head', ms', h, same rfl, fits.self,
    ⟨c, hc, (fits.bound "outer" c _ hc (by rfl)).1⟩,
    ⟨d, hd, (fits.free "y" d (by decide) hd (by rfl)).2 (by decide +kernel)⟩⟩

end TypeSynthesis
