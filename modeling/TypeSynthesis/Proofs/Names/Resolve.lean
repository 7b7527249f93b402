import TypeSynthesis.Proofs.Names.Basic

/-!
# Forms in scopes that agree

A form is resolved alike in two scopes that hold the same bindings of the names it mentions.

* `captures_recordOf`, `captures_objectOf`: synthesis keeps the captures of methods;
* `MethodHead.CapturesWithin`: all captures of methods are of certain names, and so are those of the
  object that they belong to;
* `Reads.resolve`: the resolution of a form reads the names that the form mentions;
* `resolveIn_of_agreeOn`: scopes that agree on what it mentions lead to the same outcome;
* `resolveIn_congr`: so do scopes that hold the same bindings of all these names.

The names that a form binds itself need not be mentioned by it: both runs bind them alike, and the
rebinding of a `let` looks at no others.
-/

namespace TypeSynthesis

open ResolveM

/-! ### The captures of methods -/

/-- Synthesis keeps the captures of the methods that it returns. -/
theorem captures_implementAll {construct : String} {candidates : Candidates}
    {draft draft' : ClassType} {ms ms' : List MethodHead} {s t : Session}
    (h : SynthM.implementAll construct candidates draft ms s = .ok (draft', ms') t) :
    ms'.map MethodHead.captures = ms.map MethodHead.captures := by
  induction ms generalizing draft ms' s with
  | nil =>
    obtain ⟨h, -⟩ := pure_eq_ok_iff.1 h
    cases h
    rfl
  | cons m ms ih =>
    obtain ⟨sig, u, -, h⟩ := bind_eq_ok_iff.1 h
    obtain ⟨⟨done, ms₁⟩, v, hms, h⟩ := bind_eq_ok_iff.1 h
    obtain ⟨h, rfl⟩ := pure_eq_ok_iff.1 h
    cases h
    exact congrArg (m.captures :: ·) (ih hms)

section Captures

variable {p : Pipeline} {s t : ResolveState}

theorem captures_recordOf {head : RecordHead} {ms : List MethodHead}
    {r : Descriptor × List MethodHead} (h : recordOf p head ms s = .ok r t) :
    r.2.map MethodHead.captures = ms.map MethodHead.captures := by
  rcases kept_or_synthesized h with ⟨d, -, rfl⟩ | h
  · rfl
  · obtain ⟨interfaces, _, -, h⟩ := bind_eq_ok_iff.1 h
    obtain ⟨draft, _, -, h⟩ := bind_eq_ok_iff.1 h
    obtain ⟨draft', _, -, h⟩ := bind_eq_ok_iff.1 h
    obtain ⟨R, _, -, h⟩ := bind_eq_ok_iff.1 h
    obtain ⟨⟨done, heads⟩, _, hmethods, h⟩ := bind_eq_ok_iff.1 h
    obtain ⟨d, _, -, h⟩ := bind_eq_ok_iff.1 h
    obtain ⟨rfl, -⟩ := pure_eq_ok_iff.1 h
    exact captures_implementAll hmethods

theorem captures_objectOf {head : ObjectHead} {ms : List MethodHead}
    {r : Descriptor × List MethodHead} (h : objectOf p head ms s = .ok r t) :
    r.2.map MethodHead.captures = ms.map MethodHead.captures := by
  rcases kept_or_synthesized h with ⟨d, -, rfl⟩ | h
  · rfl
  · obtain ⟨supers, _, -, h⟩ := bind_eq_ok_iff.1 h
    obtain ⟨name, _, -, h⟩ := bind_eq_ok_iff.1 h
    obtain ⟨draft, _, -, h⟩ := bind_eq_ok_iff.1 h
    obtain ⟨R, _, -, h⟩ := bind_eq_ok_iff.1 h
    obtain ⟨⟨done, heads⟩, _, hmethods, h⟩ := bind_eq_ok_iff.1 h
    obtain ⟨R', _, -, h⟩ := bind_eq_ok_iff.1 h
    obtain ⟨d, _, -, h⟩ := bind_eq_ok_iff.1 h
    obtain ⟨rfl, -⟩ := pure_eq_ok_iff.1 h
    exact captures_implementAll hmethods

/-- All captures of methods are of certain names. -/
def MethodHead.CapturesWithin (X : List Mention) (heads : List MethodHead) : Prop :=
  ∀ c ∈ heads.map MethodHead.captures, c.mentions ⊆ X

theorem MethodHead.capturesWithin_of_mentions {X : List Mention} {ms : List Method}
    (h : Node.mentionsOfMethods ms ⊆ X) : MethodHead.CapturesWithin X (ms.map Method.head) := by
  induction ms with
  | nil => exact nofun
  | cons m ms ih =>
    obtain ⟨head, body⟩ := m
    obtain ⟨first, rest⟩ := List.append_subset.1 h
    exact List.forall_mem_cons.2 ⟨first, ih (List.append_subset.1 rest).2⟩

theorem CaptureSet.mentions_resolveIn (c : CaptureSet) (scope : Scope) :
    (c.resolveIn scope).mentions = c.mentions :=
  List.map_map

/-- Resolving methods gives their captures types and sites, and keeps the names. -/
theorem MethodHead.CapturesWithin.resolveMethods {X : List Mention} {heads : List MethodHead}
    {ms ms' : List Method} (within : MethodHead.CapturesWithin X heads)
    (h : resolveMethods p heads ms s = .ok ms' t) :
    MethodHead.CapturesWithin X (ms'.map Method.head) := by
  induction heads generalizing ms ms' s t with
  | nil =>
    unfold TypeSynthesis.resolveMethods at h
    obtain ⟨rfl, -⟩ := pure_eq_ok_iff.1 h
    exact nofun
  | cons head heads ih =>
    cases ms with
    | nil =>
      unfold TypeSynthesis.resolveMethods at h
      obtain ⟨rfl, -⟩ := pure_eq_ok_iff.1 h
      exact nofun
    | cons m ms =>
      obtain ⟨_, body⟩ := m
      unfold TypeSynthesis.resolveMethods at h
      obtain ⟨captures, u, hc, h⟩ := bind_eq_ok_iff.1 h
      obtain ⟨body, v, -, h⟩ := bind_eq_ok_iff.1 h
      obtain ⟨rest, w, hrest, h⟩ := bind_eq_ok_iff.1 h
      obtain ⟨rfl, -⟩ := pure_eq_ok_iff.1 h
      cases hc
      obtain ⟨first, others⟩ := List.forall_mem_cons.1 within
      refine List.forall_mem_cons.2 ⟨?_, ih others hrest⟩
      show (head.captures.resolveIn s.scope).mentions ⊆ X
      rwa [CaptureSet.mentions_resolveIn]

theorem CaptureSet.mentions_insert_subset (s : CaptureSet) (c : Capture) :
    (s.insert c).mentions ⊆ .capture c.name :: s.mentions := by
  intro name mem
  obtain ⟨d, hd, rfl⟩ := List.mem_map.1 mem
  rcases mem_insertCapture hd with rfl | hd
  · exact List.mem_cons_self
  · exact List.mem_cons_of_mem _ (List.mem_map_of_mem hd)

theorem CaptureSet.mentions_join_subset (s : CaptureSet) (c : Capture) :
    (s.join c).mentions ⊆ .capture c.name :: s.mentions := by
  unfold CaptureSet.join
  split
  · split
    · exact List.subset_cons_self _ _
    · exact s.mentions_insert_subset c
  · exact s.mentions_insert_subset c

theorem CaptureSet.mentions_foldl_join {X : List Mention} {cs : List Capture} {s : CaptureSet}
    (hs : s.mentions ⊆ X) (hcs : ∀ c ∈ cs, .capture c.name ∈ X) :
    (cs.foldl CaptureSet.join s).mentions ⊆ X := by
  induction cs generalizing s with
  | nil => exact hs
  | cons c cs ih =>
    obtain ⟨first, rest⟩ := List.forall_mem_cons.1 hcs
    have both : .capture c.name :: s.mentions ⊆ X := List.cons_subset.2 ⟨first, hs⟩
    exact ih (List.Subset.trans (s.mentions_join_subset c) both) rest

/-- What an object captures, its methods capture. -/
theorem MethodHead.CapturesWithin.merge {X : List Mention} {heads : List MethodHead}
    (within : MethodHead.CapturesWithin X heads) (selfName : String) :
    (CaptureSet.merge (heads.map MethodHead.captures) selfName).mentions ⊆ X := by
  have kept : (CaptureSet.merge (heads.map MethodHead.captures) selfName).mentions ⊆
      (((heads.map MethodHead.captures).flatMap CaptureSet.toList).foldl CaptureSet.join
        CaptureSet.empty).mentions :=
    (List.filter_sublist.map _).subset
  refine List.Subset.trans kept (CaptureSet.mentions_foldl_join (List.nil_subset X) fun c hc => ?_)
  obtain ⟨s, hs, hc⟩ := List.mem_flatMap.1 hc
  exact within s hs (List.mem_map_of_mem hc)

end Captures

/-! ### Forms

The induction is over the input tree, one case for each kind of form.  All names that the tree
mentions are among those on which the scopes agree. -/

namespace Reads

variable {p : Pipeline}

theorem mentions_resolveBindings {bs bs' : List LetBinding} {s t : ResolveState}
    (h : resolveBindings p bs s = .ok bs' t) :
    LetBinding.mentions bs' = LetBinding.mentions bs := by
  induction bs generalizing bs' s t with
  | nil =>
    unfold resolveBindings at h
    obtain ⟨rfl, -⟩ := pure_eq_ok_iff.1 h
    rfl
  | cons b bs ih =>
    obtain ⟨name, init, _, span⟩ := b
    unfold resolveBindings at h
    obtain ⟨init', u, -, h⟩ := bind_eq_ok_iff.1 h
    obtain ⟨⟨⟩, v, -, h⟩ := bind_eq_ok_iff.1 h
    obtain ⟨rest, w, hrest, h⟩ := bind_eq_ok_iff.1 h
    obtain ⟨rfl, -⟩ := pure_eq_ok_iff.1 h
    exact congrArg (.capture name :: ·) (ih hrest)

mutual

/-- A form reads the names that it mentions. -/
theorem resolve (hp : p.refine = Refinement.identity) {X : List Mention} :
    ∀ n : Node, n.mentions ⊆ X → Reads X X (n.resolve p)
  | .const span value, _ => by
    unfold Node.resolve
    exact finish ..
  | .localRef span name role type? init?, sub => by
    obtain ⟨mem, sub⟩ := List.cons_subset.1 sub
    unfold Node.resolve
    split
    · refine (optional hp init? sub).bind fun _ => ?_
      exact (parameterType mem ..).bind fun _ => finish ..
    · exact requireBinding_bind mem span (fun type => by rw [type]) fun _ => finish ..
  | .block span forms, sub => by
    unfold Node.resolve
    exact (each hp forms sub).bind fun _ => finish ..
  | .cond span test thenForm elseForm?, sub => by
    obtain ⟨htest, sub⟩ := List.append_subset.1 sub
    obtain ⟨hthen, helse⟩ := List.append_subset.1 sub
    unfold Node.resolve
    refine (resolve hp test htest).bind fun _ => ?_
    refine (resolve hp thenForm hthen).bind fun _ => ?_
    exact (optional hp elseForm? helse).bind fun _ => finish ..
  | .invoke span callee args, sub => by
    obtain ⟨hcallee, hargs⟩ := List.append_subset.1 sub
    unfold Node.resolve
    refine (resolve hp callee hcallee).bind fun _ => ?_
    exact (each hp args hargs).bind fun _ => finish ..
  | .staticCall span owner member args resolved?, sub => by
    unfold Node.resolve
    exact (each hp args sub).bind fun _ => finish ..
  | .memberCall span target member args resolved?, sub => by
    obtain ⟨htarget, hargs⟩ := List.append_subset.1 sub
    unfold Node.resolve
    refine (resolve hp target htarget).bind fun _ => ?_
    exact (each hp args hargs).bind fun _ => finish ..
  | .throw span value, sub => by
    unfold Node.resolve
    exact (resolve hp value sub).bind fun _ => finish ..
  | .letIn span isLoop bs body, sub => by
    obtain ⟨hbs, hbody⟩ := List.append_subset.1 sub
    unfold Node.resolve
    refine (inScope (Y := LetBinding.mentions bs ++ X) ?_).bind fun _ => finish ..
    refine (bindings hp bs hbs).bind_of mentions_resolveBindings fun bs' same => ?_
    refine (refineBindings hp (same ▸ List.subset_append_left _ X)).bind fun _ => ?_
    have hbody := List.Subset.trans hbody (List.subset_append_right (LetBinding.mentions bs) X)
    exact (resolve hp body hbody).bind fun _ => pure _
  | .fn span head as, sub => by
    obtain ⟨hcaptures, has⟩ := List.append_subset.1 sub
    unfold Node.resolve
    refine (resolveCaptures? hcaptures).bind fun _ => ?_
    refine (wrapperOf ..).bind fun _ => ?_
    exact (arities hp (bindFunction ..) _ as has).bind fun _ => finish ..
  | .guarded span captures? body cs final?, sub => by
    obtain ⟨hcaptures, sub⟩ := List.append_subset.1 sub
    obtain ⟨hbody, sub⟩ := List.append_subset.1 sub
    obtain ⟨hcs, hfinal⟩ := List.append_subset.1 sub
    unfold Node.resolve
    refine (resolveCaptures? hcaptures).bind fun _ => ?_
    refine (inScope (resolve hp body hbody)).bind fun _ => ?_
    refine (clauses hp cs hcs).bind fun _ => ?_
    exact (inScope (optional hp final? hfinal)).bind fun _ => finish ..
  | .record span head ms, sub => by
    unfold Node.resolve
    refine (recordOf ..).bind_of captures_recordOf fun r kept => registry.bind fun _ => ?_
    refine (inScope (Y := X) ?_).bind fun _ => finish ..
    refine (bindName_of_subset (List.Subset.refl X) ..).bind fun _ => ?_
    have within : MethodHead.CapturesWithin X r.2 := by
      unfold MethodHead.CapturesWithin
      rw [kept]
      exact MethodHead.capturesWithin_of_mentions sub
    exact (bindFields ..).bind fun _ => methods hp r.2 ms within sub
  | .object span head ms, sub => by
    obtain ⟨-, sub⟩ := List.append_subset.1 sub
    unfold Node.resolve
    refine (objectOf ..).bind_of captures_objectOf fun r kept => ?_
    have within : MethodHead.CapturesWithin X r.2 := by
      unfold MethodHead.CapturesWithin
      rw [kept]
      exact MethodHead.capturesWithin_of_mentions sub
    have self := bindName_of_subset (List.Subset.refl X) head.selfName r.1.type .objectSelf
      .unknown
    refine (inScope (self.bind fun _ => methods hp r.2 ms within sub)).bind_of
      (P := fun ms' => MethodHead.CapturesWithin X (ms'.map Method.head)) (fun h => ?_)
      fun ms' within => ?_
    · obtain ⟨u, h, -⟩ := inScope_eq_ok h
      obtain ⟨_, _, -, h⟩ := bind_eq_ok_iff.1 h
      exact within.resolveMethods h
    · have merged := within.merge head.selfName
      rw [List.map_map] at merged
      exact (resolveCaptures merged).bind fun _ => finish ..
  | .superCall span method selfName args, sub => by
    obtain ⟨mem, hargs⟩ := List.cons_subset.1 sub
    unfold Node.resolve
    refine (each hp args hargs).bind fun _ => registry.bind fun _ => ?_
    refine scope_bind (fun agree => ?_) fun _ => (ofExcept _).bind fun _ => finish ..
    rw [agree.bindSuperCall mem]
  | .baseCall span base method target args, sub => by
    obtain ⟨htarget, hargs⟩ := List.append_subset.1 sub
    unfold Node.resolve
    refine (resolve hp target htarget).bind fun _ => ?_
    exact (each hp args hargs).bind fun _ => finish ..
  | .interface span head, _ => by
    unfold Node.resolve
    exact (interfaceOf ..).bind fun _ => finish ..

theorem each (hp : p.refine = Refinement.identity) {X : List Mention} :
    ∀ ns : List Node, Node.mentionsOfList ns ⊆ X → Reads X X (resolveEach p ns)
  | [], _ => pure _
  | n :: ns, sub => by
    obtain ⟨hn, hns⟩ := List.append_subset.1 sub
    unfold resolveEach
    exact (resolve hp n hn).bind fun _ => (each hp ns hns).bind fun _ => pure _

theorem optional (hp : p.refine = Refinement.identity) {X : List Mention} :
    ∀ n? : Option Node, Node.mentionsOfOption n? ⊆ X → Reads X X (resolveOptional p n?)
  | none, _ => pure _
  | some n, sub => by
    unfold resolveOptional
    exact (resolve hp n sub).bind fun _ => pure _

/-- Bindings in sequence lead to scopes that also agree on the names they bind. -/
theorem bindings (hp : p.refine = Refinement.identity) {X : List Mention} :
    ∀ bs : List LetBinding, Node.mentionsOfBindings bs ⊆ X →
      Reads X (LetBinding.mentions bs ++ X) (resolveBindings p bs)
  | [], _ => pure _
  | ⟨name, init, _, span⟩ :: bs, sub => by
    obtain ⟨hinit, hbs⟩ := List.append_subset.1 sub
    unfold resolveBindings
    refine (resolve hp init hinit).bind fun _ => (bindName ..).bind fun _ => ?_
    have rest := bindings hp bs (List.Subset.trans hbs (List.subset_cons_self (.capture name) X))
    refine (rest.mono (List.Subset.refl _) ?_).bind fun _ => pure _
    exact List.perm_middle.symm.subset

theorem arities (hp : p.refine = Refinement.identity) {X : List Mention}
    {bindSelf : ResolveM Unit} (h : Reads X X bindSelf) :
    ∀ (heads : List ArityHead) (as : List Arity), Node.mentionsOfArities as ⊆ X →
      Reads X X (resolveArities p bindSelf heads as)
  | head :: heads, ⟨_, body⟩ :: as, sub => by
    obtain ⟨hbody, has⟩ := List.append_subset.1 sub
    unfold resolveArities
    refine (inScope (Y := X) ?_).bind fun _ => (arities hp h heads as has).bind fun _ => pure _
    exact h.bind fun _ => (bindParams _).bind fun _ => resolve hp body hbody
  | [], _, _ | _ :: _, [], _ => by
    unfold resolveArities
    exact pure _

theorem clauses (hp : p.refine = Refinement.identity) {X : List Mention} :
    ∀ cs : List CatchClause, Node.mentionsOfClauses cs ⊆ X → Reads X X (resolveClauses p cs)
  | [], _ => pure _
  | ⟨head, body⟩ :: cs, sub => by
    obtain ⟨hbody, hcs⟩ := List.append_subset.1 sub
    unfold resolveClauses
    refine (synthesize _).bind fun _ => ?_
    refine (inScope (Y := X) ?_).bind fun _ => (clauses hp cs hcs).bind fun _ => pure _
    exact (bindName_of_subset (List.Subset.refl X) ..).bind fun _ => resolve hp body hbody

theorem methods (hp : p.refine = Refinement.identity) {X : List Mention} :
    ∀ (heads : List MethodHead) (ms : List Method), MethodHead.CapturesWithin X heads →
      Node.mentionsOfMethods ms ⊆ X → Reads X X (resolveMethods p heads ms)
  | head :: heads, ⟨_, body⟩ :: ms, within, sub => by
    obtain ⟨first, others⟩ := List.forall_mem_cons.1 within
    obtain ⟨-, sub⟩ := List.append_subset.1 sub
    obtain ⟨hbody, hms⟩ := List.append_subset.1 sub
    unfold resolveMethods
    refine (resolveCaptures first).bind fun _ => ?_
    refine (inScope (Y := X) ?_).bind fun _ => (methods hp heads ms others hms).bind fun _ => pure _
    exact (bindParams _).bind fun _ => resolve hp body hbody
  | [], _, _, _ | _ :: _, [], _, _ => by
    unfold resolveMethods
    exact pure _

end

end Reads

variable {p : Pipeline}

/-- A form has the same outcome in scopes that agree on all that it mentions: the same resolved
form or error, and the same session. -/
theorem resolveIn_of_agreeOn (hp : p.refine = Refinement.identity) {n : Node} {here there : Scope}
    (agree : here.AgreeOn n.mentions there) : n.resolveIn p here = n.resolveIn p there := by
  funext session
  have reads : Reads n.mentions n.mentions (n.resolve p) :=
    Reads.resolve hp n (List.Subset.refl _)
  have same := reads.run session agree
  unfold Node.resolveIn
  revert same
  generalize n.resolve p ⟨session, here⟩ = r, n.resolve p ⟨session, there⟩ = r'
  rintro (- | -) <;> rfl

/-- A form has the same outcome in two scopes that hold the same bindings of the names it mentions,
whatever else they hold. -/
theorem resolveIn_congr (o : Options) (l : LoweringChain) (n : Node) {here there : Scope}
    (agree : ∀ name ∈ n.names, here.get? name = there.get? name) :
    n.resolveIn { options := o, lowerings := l } here =
      n.resolveIn { options := o, lowerings := l } there :=
  resolveIn_of_agreeOn rfl fun m mem =>
    Mention.agrees_of_get? (agree m.name (List.mem_map_of_mem mem))

/-- A function that captures a name and passes it on under another. -/
def Node.nestedCapture : Node :=
  .fn .unknown
    { captures? := some (.ofList [{ name := "x", role := .letBound }]) }
    [⟨{ params := [{ name := "f" }] },
      .letIn .unknown false [⟨"y", .localRef .unknown "x" .letBound none none, none, .unknown⟩]
        (.invoke .unknown (.localRef .unknown "f" .letBound none none)
          [.localRef .unknown "y" .letBound none none])⟩]

/-- A scope in which the captured name is bound. -/
def Scope.sparse : Scope := Scope.empty.bind "x" ⟨.value .string, .letBound, .unknown⟩

/-- A scope in which the same binding hides another, with more around it. -/
def Scope.crowded : Scope :=
  (((Scope.empty.bind "x" ⟨.object, .parameter, .unknown⟩).bind "z"
    ⟨.object, .parameter, .unknown⟩).push.bind "x" ⟨.value .string, .letBound, .unknown⟩)

theorem resolveIn_congr_nestedCapture :
    (∀ name ∈ Node.nestedCapture.names, Scope.sparse.get? name = Scope.crowded.get? name) ∧
      Scope.sparse ≠ Scope.crowded ∧
      Node.nestedCapture.resolveIn {} Scope.sparse =
        Node.nestedCapture.resolveIn {} Scope.crowded := by
  have agree : ∀ name ∈ Node.nestedCapture.names,
      Scope.sparse.get? name = Scope.crowded.get? name := by decide +kernel
  exact ⟨agree, by decide +kernel, resolveIn_congr {} {} Node.nestedCapture agree⟩

end TypeSynthesis
