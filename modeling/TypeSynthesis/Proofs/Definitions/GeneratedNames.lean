import TypeSynthesis.Proofs.Definitions.Failure
import TypeSynthesis.Proofs.Synthesis.FreshNames

/-!
# Generated names

The classes of function and object literals have names that are generated.  A name is drawn among
those that are free, stays free while the class is drafted, and is taken when the class is
registered.  Since nothing is ever taken back, no name is given twice.

* `Construct.naming?`: the synthesis of such a class up to the point where its name is drawn;
* `Construct.reserves_of_naming`: from there on the name is reserved;
* `Registry.Issues R ds S`: the descriptors `ds` are given on the way from `R` to `S`, each under a
  name and an identity that were free;
* `Session.Through.issues`: so it is on every passage;
* `Pipeline.Runs p s forms made t`: a run over forms, which contexts may take up one after another;
* `Pipeline.generated_names_reserved`: names are reserved from the draw on, and those of a run
  differ from each other.
-/

namespace TypeSynthesis

open SynthM Registry

/-! ### From the draw of a name on -/

namespace Construct

variable {o : Options} {c : Construct} {x : SynthM (String × SynthM ClassType)}

/-- If the name of the construct's class is generated, its synthesis up to the point where the name
is drawn.  It gives the name, and what is then left of the draft. -/
def naming? (o : Options) : Construct → Option (SynthM (String × SynthM ClassType))
  | fn name? arities => some do
    let (invokers, _) ← SynthM.resolveArities o (functionConstruct name?) [] arities
    let name ← freshName o (name?.getD "fn")
    return (name, wrapperUnder name invokers)
  | object head methods => some do
    let supers ← supertypes head
    let name ← freshName o head.kind.construct
    return (name, objectUnder name head methods supers)
  | record .. | interface _ => none

/-- The class is registered when its draft is done. -/
theorem synthesize_eq_of_naming (h : c.naming? o = some x) :
    c.synthesize o = (do
      let (_, draft) ← x
      finish (← draft)) := by
  cases c with
  | fn name? as =>
    cases h
    simp only [synthesize, synthesizeWrapper, wrapperUnder, bind_assoc, pure_bind, bind_pure]
  | object head ms =>
    cases h
    simp only [synthesize, synthesizeObject, objectUnder, bind_assoc, pure_bind, bind_pure]
  | record head ms => cases h
  | interface head => cases h

/-- The name that is drawn is reserved while the class is drafted. -/
theorem reserves_of_naming (h : c.naming? o = some x) {s u : Session} {name : String}
    {draft : SynthM ClassType} (sound : s.registry.Sound) (run : x s = .ok (name, draft) u) :
    Reserves name u draft := by
  have grows {stem : String} {v : Session} (before : s.Grows v)
      (drawn : freshName o stem v = .ok name u) : u.registry.Sound :=
    sound.of_grows (before.trans ((Session.grows_respected.freshName o stem).of_ok drawn))
  cases c with
  | fn name? as =>
    cases h
    obtain ⟨⟨invokers, as'⟩, v, resolved, h⟩ := bind_eq_ok_iff.1 run
    obtain ⟨name', w, drawn, h⟩ := bind_eq_ok_iff.1 h
    obtain ⟨h, rfl⟩ := pure_eq_ok_iff.1 h
    cases h
    exact reserves_wrapperUnder
      (grows ((Session.grows_respected.arities ..).of_ok resolved) drawn) drawn
  | object head ms =>
    cases h
    obtain ⟨supers, v, resolved, h⟩ := bind_eq_ok_iff.1 run
    obtain ⟨name', w, drawn, h⟩ := bind_eq_ok_iff.1 h
    obtain ⟨h, rfl⟩ := pure_eq_ok_iff.1 h
    cases h
    exact reserves_objectUnder
      (grows ((Session.grows_respected.supertypes head).of_ok resolved) drawn) drawn
  | record head ms => cases h
  | interface head => cases h

end Construct

/-! ### Descriptors that are given -/

/-- The descriptors are given on the way from a registry to another: their names and identities are
free in the first and taken in the second, and no two of them share either. -/
structure Registry.Issues (R : Registry) (ds : List Descriptor) (S : Registry) : Prop where
  grows : R.Grows S
  free {d : Descriptor} (hd : d ∈ ds) : R.containsName d.name = false ∧ R.contains d.id = false
  taken {d : Descriptor} (hd : d ∈ ds) : S.containsName d.name = true ∧ S.contains d.id = true
  names : (ds.map Descriptor.name).Nodup
  ids : (ds.map Descriptor.id).Nodup

namespace Registry

variable {R S T : Registry} {ds ds' : List Descriptor}

theorem issues_of_grows (h : R.Grows S) : R.Issues [] S :=
  ⟨h, nofun, nofun, List.nodup_nil, List.nodup_nil⟩

theorem issues_of_register {e : Entry} (h : R.register e = .ok S) :
    R.Issues [⟨e.name, e.id⟩] S := by
  obtain ⟨name, id, rfl⟩ := register_eq_ok_iff.1 h
  refine ⟨grows_register h, fun hd => ?_, fun hd => ?_, List.nodup_singleton _,
    List.nodup_singleton _⟩
  · obtain rfl := List.mem_singleton.1 hd
    exact ⟨name, id⟩
  · obtain rfl := List.mem_singleton.1 hd
    refine ⟨?_, contains_eq_true_iff.2 ⟨e, ?_⟩⟩
    · rw [containsName_add, beq_self_eq_true, Bool.true_or]
    · rw [get?_add]
      exact if_pos rfl

theorem nodup_map_append {α β : Type} {f : α → β} {l l' : List α} (h : (l.map f).Nodup)
    (h' : (l'.map f).Nodup) (apart : ∀ a ∈ l, ∀ b ∈ l', f a ≠ f b) :
    ((l ++ l').map f).Nodup := by
  rw [List.map_append]
  refine h.append h' fun x hx hx' => ?_
  obtain ⟨a, ha, rfl⟩ := List.mem_map.1 hx
  obtain ⟨b, hb, same⟩ := List.mem_map.1 hx'
  exact apart a ha b hb same.symm

/-- What is given first is taken when the rest is given. -/
theorem Issues.trans (h : R.Issues ds S) (h' : S.Issues ds' T) : R.Issues (ds ++ ds') T := by
  refine ⟨h.grows.trans h'.grows, fun hd => ?_, fun hd => ?_,
    nodup_map_append h.names h'.names fun d hd d' hd' same => ?_,
    nodup_map_append h.ids h'.ids fun d hd d' hd' same => ?_⟩
  · rcases List.mem_append.1 hd with hd | hd
    · exact h.free hd
    · obtain ⟨name, id⟩ := h'.free hd
      exact ⟨containsName_eq_false_of_grows h.grows name, contains_eq_false_of_grows h.grows id⟩
  · rcases List.mem_append.1 hd with hd | hd
    · have taken := h.taken hd
      exact ⟨containsName_of_grows h'.grows taken.1, contains_of_grows h'.grows taken.2⟩
    · exact h'.taken hd
  · have taken := (h.taken hd).1
    rw [same, (h'.free hd').1] at taken
    cases taken
  · have taken := (h.taken hd).2
    rw [same, (h'.free hd').2] at taken
    cases taken

end Registry

/-- Every synthesis on a passage gives a descriptor of its own. -/
theorem Session.Through.issues {o : Options} {s t : Session}
    {made : List (Construct × Descriptor)} (h : s.Through o made t) :
    s.registry.Issues (made.map Prod.snd) t.registry := by
  induction h with
  | refl => exact issues_of_grows .refl
  | readies _ next ih =>
    have both := ih.trans (issues_of_grows next.idle.grows)
    rwa [List.append_nil] at both
  | makes _ next ih =>
    obtain ⟨u, e, ready, -, registers, rfl⟩ := Construct.exists_register next
    rw [List.map_append]
    exact ih.trans ((issues_of_grows ready.idle.grows).trans (issues_of_register registers))

/-! ### Runs over forms -/

/-- A run resolves forms in order, and the constructs `made` are given their types, each with its
descriptor.  Of a form these are the first few constructs, and all of them if it resolves.  Before
each form a new context may take over the registry, to which the host may have added types.  Names
are then counted from the start again. -/
inductive Pipeline.Runs (p : Pipeline) :
    Session → List Node → List (Construct × Descriptor) → Session → Prop
  | done (s : Session) : Runs p s [] [] s
  | form {s t : Session} {n : Node} {forms : List Node} {made made' : List (Construct × Descriptor)}
      (through : s.Through p.options made (p.resolveForm s n).2)
      (initial : made.map Prod.fst <+: n.constructs)
      (full : ∀ n', (p.resolveForm s n).1 = .ok n' → made.map Prod.fst = n.constructs)
      (rest : Runs p (p.resolveForm s n).2 forms made' t) : Runs p s (n :: forms) (made ++ made') t
  | restart {s t : Session} {R : Registry} {forms : List Node}
      {made : List (Construct × Descriptor)} (grows : s.registry.Grows R)
      (rest : Runs p { registry := R } forms made t) : Runs p s forms made t

namespace Pipeline

variable {p : Pipeline}

theorem resolveForm_eq_ok {s : Session} {n n' : Node} (h : (p.resolveForm s n).1 = .ok n') :
    ∃ t, n.resolve p { session := s } = .ok n' t := by
  unfold resolveForm at h
  split at h
  · rename_i m t resolved
    cases h
    exact ⟨t, resolved⟩
  · cases h

/-- A form resolves if a run over it and others is without errors, and so do the others. -/
theorem errors_resolveForms_cons {s : Session} {n : Node} {forms : List Node}
    (h : (p.resolveForms s (n :: forms)).1.errors = []) :
    (∃ n', (p.resolveForm s n).1 = .ok n') ∧
      (p.resolveForms (p.resolveForm s n).2 forms).1.errors = [] := by
  have h : (Output.cons (p.resolveForm s n).1
      (p.resolveForms (p.resolveForm s n).2 forms).1).errors = [] := h
  cases result : (p.resolveForm s n).1 with
  | ok n' =>
    rw [result] at h
    exact ⟨⟨n', rfl⟩, h⟩
  | error e =>
    rw [result] at h
    cases h

/-- The resolution of forms in one session is a run.  If it is without errors, all constructs of the
forms are given their types. -/
theorem exists_runs (p : Pipeline) (s : Session) (forms : List Node) :
    ∃ made, p.Runs s forms made (p.resolveForms s forms).2 ∧
      ((p.resolveForms s forms).1.errors = [] →
        made.map Prod.fst = forms.flatMap Node.constructs) := by
  induction forms generalizing s with
  | nil => exact ⟨[], .done s, fun _ => rfl⟩
  | cons n forms ih =>
    obtain ⟨made, through, initial, full⟩ := (completes_resolve p n).run { session := s }
    rw [← session_resolveForm] at through
    have full {n' : Node} (h : (p.resolveForm s n).1 = .ok n') :
        made.map Prod.fst = n.constructs := by
      obtain ⟨t, resolved⟩ := resolveForm_eq_ok h
      exact full n' t resolved
    obtain ⟨made', rest, full'⟩ := ih (p.resolveForm s n).2
    refine ⟨made ++ made', .form through initial (fun _ => full) rest, fun h => ?_⟩
    obtain ⟨⟨n', resolved⟩, others⟩ := errors_resolveForms_cons h
    rw [List.map_append, full resolved, full' others, List.flatMap_cons]

theorem Runs.issues {s t : Session} {forms : List Node} {made : List (Construct × Descriptor)}
    (h : p.Runs s forms made t) : s.registry.Issues (made.map Prod.snd) t.registry := by
  induction h with
  | done s => exact issues_of_grows .refl
  | form through _ _ _ ih =>
    rw [List.map_append]
    exact through.issues.trans ih
  | restart grows _ ih => exact (issues_of_grows grows).trans ih

/-- A generated name stays free from when it is drawn until the class is registered under it, so
that the class is not refused for it unless another name shares the identity.  The descriptors that
are given in a run differ from each other in names and in identities. -/
theorem generated_names_reserved (p : Pipeline) :
    (∀ (c : Construct) (x : SynthM (String × SynthM ClassType)), c.naming? p.options = some x →
      (c.synthesize p.options = do
        let (_, draft) ← x
        finish (← draft)) ∧
      ∀ (s u : Session) (name : String) (draft : SynthM ClassType), s.registry.Sound →
        x s = .ok (name, draft) u → Reserves name u draft) ∧
    (∀ (s : Session) (forms : List Node), ∃ made,
      p.Runs s forms made (p.resolveForms s forms).2 ∧
      ((p.resolveForms s forms).1.errors = [] →
        made.map Prod.fst = forms.flatMap Node.constructs)) ∧
    ∀ (s t : Session) (forms : List Node) (made : List (Construct × Descriptor)),
      p.Runs s forms made t →
        (made.map (·.2.name)).Nodup ∧ (made.map (·.2.id)).Nodup := by
  refine ⟨fun c x h => ⟨Construct.synthesize_eq_of_naming h, fun s u name draft sound run => ?_⟩,
    p.exists_runs, fun s t forms made run => ?_⟩
  · exact Construct.reserves_of_naming h sound run
  · have names := run.issues.names
    have ids := run.issues.ids
    rw [List.map_map] at names ids
    exact ⟨names, ids⟩

/-- A proxy over the root of the exceptions that overrides the comparison. -/
def lenientProxy : Node :=
  .object .unknown
    { kind := .proxy, supers := [⟨"Exception", .unknown⟩], selfName := "this", captures := .empty }
    [⟨{ name := "Equals", params := [{ name := "x", hint? := some ⟨"string", .unknown⟩ }],
        captures := .empty }, .const .unknown .nil⟩]

/-- A function, and the proxy twice. -/
def literals : List Node :=
  [.fn .unknown {} [⟨{ params := [] }, .const .unknown .nil⟩], lenientProxy, lenientProxy]

/-- Whether a construct draws the name in a session, and its draft is then made without the identity
of the name being taken. -/
def drawsApart (c : Construct) (s : Session) (name : String) : Bool :=
  (c.naming? {}).any fun x =>
    accepted (fun r u => r.1 == name &&
      accepted (fun _ t => decide (TypeId.ofName name ∉ t.registry.names.values)) (r.2 u)) (x s)

theorem generated_names_reserved_literals :
    (∃ c t, lenientProxy.construct? = some c ∧ c.synthesize {} { registry := .host } =
      .ok ⟨"sable.gen.proxy__7061c7d0", .ofName "sable.gen.proxy__7061c7d0"⟩ t) ∧
    ∃ made, ({} : Pipeline).Runs { registry := .host } literals made
        (({} : Pipeline).resolveForms { registry := .host } literals).2 ∧
      made.length = 3 ∧ (made.map (·.2.name)).Nodup ∧ (made.map (·.2.id)).Nodup := by
  obtain ⟨reserved, exists_runs, apart⟩ := generated_names_reserved {}
  constructor
  · have draws : lenientProxy.construct?.any
        (drawsApart · { registry := .host } "sable.gen.proxy__7061c7d0") = true := by
      decide +kernel
    obtain ⟨c, hc, draws⟩ := (Option.any_eq_true _ _).1 draws
    obtain ⟨x, hx, draws⟩ := (Option.any_eq_true _ _).1 draws
    obtain ⟨⟨name, draft⟩, u, drawn, draws⟩ := exists_of_accepted draws
    obtain ⟨same, done⟩ := Bool.and_eq_true_iff.1 draws
    obtain rfl := eq_of_beq same
    obtain ⟨d, t, done, unshared⟩ := exists_of_accepted done
    obtain ⟨whole, reserves⟩ := reserved c x hx
    have finished := (reserves { registry := .host } u _ draft
      (built_of_mem_starts (by simp)).sound drawn).finished done
      (unshared_of_notMem (of_decide_eq_true unshared))
    refine ⟨c, t.withRegistry (t.registry.add (.classType d)), hc, ?_⟩
    rw [whole, bind_run_ok drawn]
    exact (bind_run_ok done).trans finished
  · obtain ⟨made, run, full⟩ := exists_runs { registry := .host } literals
    have resolved :
        (({} : Pipeline).resolveForms { registry := .host } literals).1.errors = [] := by
      decide +kernel
    have length := congrArg List.length (full resolved)
    rw [List.length_map] at length
    exact ⟨made, run, length, apart _ _ _ _ run⟩

end Pipeline

end TypeSynthesis
