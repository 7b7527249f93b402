import TypeSynthesis.Proofs.Registry.Operations
import TypeSynthesis.Proofs.Registry.Pointers
import TypeSynthesis.Proofs.Synthesis.Implement

/-!
# What proxies and other types take for an interface

Records, anonymous objects and generated interfaces resolve the names of interfaces one after the
other, and check each at its turn.  A proxy first resolves the names of all its supertypes, since
the first of them may be its base class, and then checks those that must be interfaces.

* `Registry.firstRequired`: where the interfaces among the supertypes of a proxy start;
* `ObjectHead.Splits`: what a proxy makes of types that its supertypes denote, and what becomes of
  the same names where only interfaces are expected;
* `SynthM.supertypes_agree`: both take the same type from a name and report the same error, unless
  the name denotes an interface passed by reference, which a proxy alone accepts.

A proxy checks a name later than others do.  The pointer types that are registered in between make
no difference where identities are distinct.
-/

namespace TypeSynthesis

open Registry

/-! ### Required interfaces -/

/-- The place among types from which on a proxy requires interfaces: the first one may be its base
class. -/
def Registry.firstRequired (R : Registry) : List TypeId → Nat
  | [] => 0
  | t :: _ => if R.isInterface t then 0 else 1

namespace SynthM

variable {construct : String} {head : ObjectHead} {s t u v : Session} {R : Registry}
  {supers : List (TypeName × TypeId)} {name : TypeName} {type : TypeRef}

theorem requireInterface_eq_ok_iff {x : TypeName × TypeId} {i : TypeId} :
    requireInterface R construct x = .ok i ↔ R.isInterface x.2 = true ∧ x.2 = i := by
  unfold requireInterface
  split
  · rename_i interface
    rw [Except.ok.injEq]
    exact ⟨fun same => ⟨interface, same⟩, fun h => h.2⟩
  · rename_i other
    exact ⟨nofun, fun h => absurd h.1 other⟩

theorem mapM_requireInterface_eq_ok_iff {is : List TypeId} :
    supers.mapM (requireInterface R construct) = .ok is ↔
      (∀ x ∈ supers, R.isInterface x.2 = true) ∧ supers.map (·.2) = is := by
  constructor
  · intro h
    refine ⟨?_, (mapM_requireInterface h).symm⟩
    induction supers generalizing is with
    | nil => exact nofun
    | cons x supers ih =>
      rw [List.mapM_cons] at h
      obtain ⟨i, first, h⟩ := except_bind_eq_ok_iff.1 h
      obtain ⟨is', rest, -⟩ := except_bind_eq_ok_iff.1 h
      exact List.forall_mem_cons.2 ⟨(requireInterface_eq_ok_iff.1 first).1, ih rest⟩
  · rintro ⟨all, rfl⟩
    induction supers with
    | nil => rfl
    | cons x supers ih =>
      obtain ⟨first, rest⟩ := List.forall_mem_cons.1 all
      rw [List.mapM_cons, requireInterface_eq_ok_iff.2 ⟨first, rfl⟩, ih rest]
      rfl

/-- What is refused is refused for some name. -/
theorem exists_of_mapM_requireInterface {e : CompilationError}
    (h : supers.mapM (requireInterface R construct) = .error e) :
    ∃ x ∈ supers, requireInterface R construct x = .error e := by
  induction supers with
  | nil => cases h
  | cons x supers ih =>
    rw [List.mapM_cons] at h
    cases first : requireInterface R construct x with
    | error e' =>
      rw [first] at h
      cases h
      exact ⟨x, List.mem_cons_self, first⟩
    | ok i =>
      rw [first] at h
      cases rest : supers.mapM (requireInterface R construct) with
      | ok is => rw [rest] at h; cases h
      | error e' =>
        rw [rest] at h
        cases h
        obtain ⟨y, hy, refused⟩ := ih rest
        exact ⟨y, List.mem_cons_of_mem x hy, refused⟩

/-- The base class and the interfaces, once those that must be interfaces have been checked. -/
theorem splitSupers_eq (R : Registry) (construct : String) (supers : List (TypeName × TypeId)) :
    splitSupers R construct supers = do
      let is ← (supers.drop (R.firstRequired (supers.map (·.2)))).mapM
        (requireInterface R construct)
      return ((R.baseAndInterfaces (supers.map (·.2))).1, is) := by
  cases supers with
  | nil => rfl
  | cons first rest =>
    by_cases interface : R.isInterface first.2
    · simp [splitSupers, baseAndInterfaces, firstRequired, interface]
    · simp [splitSupers, baseAndInterfaces, firstRequired, interface]

/-- The interface that a name denotes is found in the session where the name has been resolved. -/
theorem resolveInterface_eq (h : resolveTypeName construct name u = .ok type v) :
    resolveInterface construct name u =
      if type.isByRef then .error (.notAnInterface name.text construct name.span) v
      else
        (ofExcept (requireInterface v.registry construct (name, type.id)) : SynthM TypeId) v := by
  unfold resolveInterface
  rw [bind_run_ok h]
  show (if type.isByRef || !v.registry.isInterface type.id then _ else _ : SynthM TypeId) v = _
  unfold requireInterface
  cases type.isByRef <;> cases v.registry.isInterface type.id <;> rfl

theorem isInterface_of_resolveInterface {i : TypeId}
    (h : resolveInterface construct name u = .ok i v) : v.registry.isInterface i = true := by
  obtain ⟨type, w, denotes, rest⟩ := bind_eq_ok_iff.1 h
  rw [resolveInterface_eq denotes] at h
  split at h
  · cases h
  · obtain ⟨taken, rfl⟩ := ofExcept_eq_ok_iff.1 h
    obtain ⟨interface, rfl⟩ := requireInterface_eq_ok_iff.1 taken
    exact interface

/-- An interface that was resolved on the way is one in the end. -/
theorem isInterface_of_mapM {names : List TypeName} {is : List TypeId} (sound : s.registry.Sound)
    (h : names.mapM (resolveInterface construct) s = .ok is t) (distinct : t.registry.Distinct) :
    ∀ i ∈ is, t.registry.isInterface i = true := by
  intro i hi
  have points := Session.points_pointing
  have runs := Moves.forall₂_mapM (points.interfaceName construct) h
  obtain ⟨k, hk, rfl⟩ := List.getElem_of_mem hi
  obtain ⟨u, v, before, resolves, after⟩ :=
    (List.forall₂_iff_get.1 runs).2 k (runs.length_eq ▸ hk) hk
  have toName : s.registry.Points v.registry :=
    Points.trans before ((points.interfaceName _ _).of_ok resolves)
  rw [Points.isInterface_eq after (sound.of_grows toName.grows) distinct]
  exact isInterface_of_resolveInterface resolves

theorem checkInterfaces_eq_ok {is : List TypeId} (h : ∀ i ∈ is, R.isInterface i = true) :
    R.checkInterfaces is = .ok () := by
  induction is with
  | nil => rfl
  | cons i is ih =>
    obtain ⟨first, rest⟩ := List.forall_mem_cons.1 h
    obtain ⟨j, hj⟩ := Option.isSome_iff_exists.1 first
    have here : R.checkInterface i = .ok () := by
      unfold checkInterface
      rw [get?_of_interface? hj]
      rfl
    unfold checkInterfaces
    rw [here, ih rest]
    rfl

end SynthM

/-! ### Agreement -/

open SynthM

/-- The supertypes of a proxy that must be interfaces, each with what its name denotes. -/
def ObjectHead.required (head : ObjectHead) (R : Registry) (types : List TypeRef) :
    List (TypeName × TypeId) :=
  (head.supers.zip (types.map (·.id))).drop (R.firstRequired (types.map (·.id)))

/-- What a proxy makes of its supertypes where their names denote `types`, which leads to the
session `t`. -/
structure ObjectHead.Splits (head : ObjectHead) (s : Session) (types : List TypeRef) (t : Session) :
    Prop where
  resolved : head.supers.mapM (resolveTypeName head.kind.construct) s = .ok types t
  /-- The supertypes are accepted exactly if every required name is. -/
  accepted (sup : Supertypes) (u : Session) : supertypes head s = .ok sup u ↔
    (∀ x ∈ head.required t.registry types,
      requireInterface t.registry head.kind.construct x = .ok x.2) ∧
    sup = { base := (t.registry.baseAndInterfaces (types.map (·.id))).1,
            requested := (head.required t.registry types).map (·.2) } ∧ u = t
  /-- Otherwise the error is that of a required name. -/
  refused {e : CompilationError} {u : Session} (h : supertypes head s = .error e u) : u = t ∧
    ∃ x ∈ head.required t.registry types,
      requireInterface t.registry head.kind.construct x = .error e
  /-- Each name denotes its type in the session that the names before it lead to.  There an
  interface takes the same from it, or reports the same error, unless it denotes a type by
  reference. -/
  turn (distinct : t.registry.Distinct) {before after : List TypeName} {name : TypeName}
    (parts : head.supers = before ++ name :: after) :
    ∃ ts type us u v, types = ts ++ type :: us ∧
      before.mapM (resolveTypeName head.kind.construct) s = .ok ts u ∧
      resolveTypeName head.kind.construct name u = .ok type v ∧
      (t.registry.firstRequired (types.map (·.id)) ≤ before.length →
        (name, type.id) ∈ head.required t.registry types) ∧
      resolveInterface head.kind.construct name u =
        if type.isByRef then .error (.notAnInterface name.text head.kind.construct name.span) v
        else (ofExcept (requireInterface t.registry head.kind.construct (name, type.id)) :
          SynthM TypeId) v

/-- The name at a position from the first required one on is required. -/
theorem ObjectHead.mem_required {head : ObjectHead} {R : Registry} {before after : List TypeName}
    {name : TypeName} {ts us : List TypeRef} {type : TypeRef}
    (parts : head.supers = before ++ name :: after) (length : ts.length = before.length)
    (position : R.firstRequired ((ts ++ type :: us).map (·.id)) ≤ before.length) :
    (name, type.id) ∈ head.required R (ts ++ type :: us) := by
  have same : before.length = (ts.map (·.id)).length := by rw [List.length_map, length]
  unfold required
  generalize R.firstRequired ((ts ++ type :: us).map (·.id)) = n at position ⊢
  rw [parts, List.map_append, List.map_cons, List.zip_append same, List.zip_cons_cons,
    List.drop_append_of_le_length]
  · exact List.mem_append_right _ List.mem_cons_self
  · rw [List.length_zip, ← same, Nat.min_self]
    exact position

namespace SynthM

variable {head : ObjectHead} {s t : Session}

/-- Once the names of a proxy's supertypes are resolved, those that must be interfaces are
checked. -/
theorem proxySupertypes_eq {types : List TypeRef}
    (h : head.supers.mapM (resolveTypeName head.kind.construct) s = .ok types t) :
    proxySupertypes head s = (do
      let is ← ofExcept ((head.required t.registry types).mapM
        (requireInterface t.registry head.kind.construct))
      return { base := (t.registry.baseAndInterfaces (types.map (·.id))).1, requested := is } :
        SynthM Supertypes) t := by
  have length : types.length = head.supers.length :=
    (Moves.forall₂_mapM (Session.grows_respected.typeName _) h).length_eq.symm
  let supers := head.supers.zip (types.map (·.id))
  have ids : supers.map (·.2) = types.map (·.id) :=
    List.map_snd_zip (by rw [List.length_map, length])
  have pairs : head.supers.zipWith (fun name type => (name, type.id)) types = supers := by
    rw [← List.zipWith_map_right]
    rfl
  unfold proxySupertypes
  rw [mapM_return (fun name (type : TypeRef) => (name, type.id)), bind_assoc, bind_run_ok h]
  show (ofExcept (splitSupers t.registry head.kind.construct _) >>= _ : SynthM Supertypes) t = _
  rw [pairs, splitSupers_eq, ids]
  unfold ObjectHead.required
  cases (supers.drop (t.registry.firstRequired (types.map (·.id)))).mapM
    (requireInterface t.registry head.kind.construct) <;> rfl

/-- For each list of supertypes, either the names up to one that denotes nothing are resolved, and
a proxy reports it as an interface does in its place, or all names are resolved.  Then a proxy takes
the same from every name that must be an interface as an interface does in its place, unless the
name denotes a type by reference.  It is assumed that no two names share an identity in the end. -/
theorem supertypes_agree (head : ObjectHead) (s : Session) (kind : head.kind = .proxy)
    (sound : s.registry.Sound) :
    (∃ before name after types u v e, head.supers = before ++ name :: after ∧
      before.mapM (resolveTypeName head.kind.construct) s = .ok types u ∧
      resolveInterface head.kind.construct name u = .error e v ∧
      supertypes head s = .error e v) ∨
    ∃ types t, head.Splits s types t := by
  have whole : supertypes head s = proxySupertypes head s := by
    unfold supertypes
    rw [kind]
  cases resolved : head.supers.mapM (resolveTypeName head.kind.construct) s with
  | error e v =>
    left
    obtain ⟨before, name, after, types, u, parts, first, failed⟩ := mapM_eq_error resolved
    refine ⟨before, name, after, types, u, v, e, parts, first, bind_run_error failed, ?_⟩
    rw [whole]
    unfold proxySupertypes
    rw [mapM_return (fun name (type : TypeRef) => (name, type.id))]
    exact bind_run_error (bind_run_error resolved)
  | ok types t =>
    right
    have split := whole.trans (proxySupertypes_eq resolved)
    refine ⟨types, t, resolved, fun sup u => ?accepted, fun h => ?refused, ?turn⟩
    case accepted =>
      rw [split]
      constructor
      · intro h
        obtain ⟨is, w, run, h⟩ := bind_eq_ok_iff.1 h
        obtain ⟨checked, rfl⟩ := ofExcept_eq_ok_iff.1 run
        obtain ⟨rfl, rfl⟩ := pure_eq_ok_iff.1 h
        obtain ⟨all, rfl⟩ := mapM_requireInterface_eq_ok_iff.1 checked
        exact ⟨fun x hx => requireInterface_eq_ok_iff.2 ⟨all x hx, rfl⟩, rfl, rfl⟩
      · rintro ⟨all, rfl, rfl⟩
        refine bind_eq_ok_iff.2 ⟨_, _, ofExcept_eq_ok_iff.2 ⟨?_, rfl⟩, rfl⟩
        exact mapM_requireInterface_eq_ok_iff.2
          ⟨fun x hx => (requireInterface_eq_ok_iff.1 (all x hx)).1, rfl⟩
    case refused =>
      rw [split] at h
      cases checked : (head.required t.registry types).mapM
          (requireInterface t.registry head.kind.construct) with
      | ok is =>
        rw [checked] at h
        cases h
      | error e =>
        rw [checked] at h
        cases h
        exact ⟨rfl, exists_of_mapM_requireInterface checked⟩
    case turn =>
      intro distinct before after name parts
      have points := Session.points_pointing
      obtain ⟨ts, type, us, u, v, rfl, first, here, rest⟩ := mapM_eq_ok_at (parts ▸ resolved)
      have length : ts.length = before.length :=
        (Moves.forall₂_mapM (points.typeName _) first).length_eq.symm
      have toName : s.registry.Points v.registry :=
        ((Moves.mapM (points.typeName _) _).of_ok first).trans ((points.typeName ..).of_ok here)
      have onwards : v.registry.Points t.registry :=
        (Moves.mapM (points.typeName _) _).of_ok rest
      refine ⟨ts, type, us, u, v, rfl, first, here, ObjectHead.mem_required parts length, ?_⟩
      rw [resolveInterface_eq here]
      unfold requireInterface
      rw [onwards.isInterface_eq (sound.of_grows toName.grows) distinct]

/-- A proxy over the root of the exceptions and a type that is written as `interface`. -/
def guardHead (interface : String) : ObjectHead :=
  { kind := .proxy, selfName := "this",
    supers := [⟨"Exception", .unknown⟩, ⟨interface, .unknown⟩], captures := .empty }

theorem supertypes_agree_guard : (guardHead "sable.lang.IObj").kind = .proxy ∧ host.Sound ∧
    ∃ types t, (guardHead "sable.lang.IObj").Splits { registry := .host } types t ∧
      supertypes (guardHead "sable.lang.IObj") { registry := .host } =
        .ok { base := .ofName "Exception", requested := [.ofName "sable.lang.IObj"] } t := by
  have sound : host.Sound := (built_of_mem_starts (by simp)).sound
  have run : accepted (fun sup _ =>
      sup == { base := .ofName "Exception", requested := [.ofName "sable.lang.IObj"] })
      (supertypes (guardHead "sable.lang.IObj") { registry := .host }) = true := by
    decide +kernel
  obtain ⟨sup, u, run, same⟩ := exists_of_accepted run
  refine ⟨rfl, sound, ?_⟩
  rcases supertypes_agree (guardHead "sable.lang.IObj") { registry := .host } rfl sound with
    ⟨_, _, _, _, _, _, _, _, _, _, failed⟩ | ⟨types, t, splits⟩
  · rw [run] at failed
    cases failed
  · obtain ⟨-, -, rfl⟩ := (splits.accepted sup u).1 run
    exact ⟨types, u, splits, by rw [run, eq_of_beq same]⟩

/-- A proxy may accept a name that is no name of an interface. -/
theorem not_supertypes_agree :
    ¬ ∀ (o : Options) (head : ObjectHead) (s t u : Session) (base name : TypeName) (b : TypeRef)
      (x : Descriptor × List MethodHead), head.kind = .proxy → s.registry.Built →
      head.supers = [base, name] → resolveTypeName head.kind.construct base s = .ok b u →
      synthesizeObject o head [] s = .ok x t → t.registry.Distinct →
      ∃ i v, resolveInterface head.kind.construct name u = .ok i v := by
  intro h
  let s : Session := { registry := .host }
  have built : s.registry.Built := built_of_mem_starts (by simp [s])
  have made : accepted (fun _ t => decide t.registry.names.values.Nodup)
      (synthesizeObject {} (guardHead "sable.lang.IObj&") [] s) = true := by
    decide +kernel
  obtain ⟨x, t, made, apart⟩ := exists_of_accepted made
  have denoted : accepted (fun _ u => decide (u = s))
      (resolveTypeName "proxy" ⟨"Exception", .unknown⟩ s) = true := by
    decide +kernel
  obtain ⟨b, u, denoted, same⟩ := exists_of_accepted denoted
  obtain rfl := of_decide_eq_true same
  obtain ⟨i, v, taken⟩ := h {} (guardHead "sable.lang.IObj&") s t s _ _ b x rfl built rfl denoted
    made (distinct_of_nodup (of_decide_eq_true apart))
  have refused : accepted (fun _ _ => true)
      (resolveInterface "proxy" ⟨"sable.lang.IObj&", .unknown⟩ s) = false := by
    decide +kernel
  have taken' : resolveInterface "proxy" ⟨"sable.lang.IObj&", .unknown⟩ s = .ok i v := taken
  rw [taken'] at refused
  cases refused

end SynthM

end TypeSynthesis
