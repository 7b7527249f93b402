import TypeSynthesis.Proofs.Registry.Pointers
import TypeSynthesis.Proofs.Synthesis.Drafts

/-!
# Names that are drawn

A function wrapper and the class of an object literal are drafted under a name that was free when it
was drawn.  What is still to be read before the draft is done registers pointer types only, and a
pointer type's name ends in a star, while a drawn name ends in a digit.

* `SynthM.free_of_freshName`, `SynthM.nameAt_starless`: a drawn name is free and ends in a digit;
* `SynthM.wrapperUnder`, `SynthM.objectUnder`: what is left of a draft once its name is drawn;
* `SynthM.Quiet x`: the computation `x` does not fail because a type is registered already;
* `SynthM.Reserves name u draft`: the name stays free while the draft is made, and the draft is
  registered under it;
* `SynthM.reserves_wrapperUnder`, `SynthM.reserves_objectUnder`: so it is with both kinds of draft.
-/

namespace TypeSynthesis

/-- Whether the error says that the name or the identity of a type is taken. -/
def RegistrationError.isDuplicate : RegistrationError → Bool
  | duplicateType _ => true
  | _ => false

/-- Whether the error says that the name or the identity of a type is taken. -/
def CompilationError.isDuplicate : CompilationError → Bool
  | registration e => e.isDuplicate
  | _ => false

namespace Registry

variable {R : Registry} {name : String} {base : TypeId} {is : List TypeId} {e : RegistrationError}

/-- No other name has the identity of this one. -/
def Unshared (R : Registry) (name : String) : Prop :=
  ∀ n, R.names.get? n = some (.ofName name) → n = name

theorem unshared_of_notMem (h : TypeId.ofName name ∉ R.names.values) : R.Unshared name :=
  fun _ hn => absurd (List.mem_map_of_mem (mem_of_names_get? hn)) h

/-- The identity of a free name is free, where no other name has it. -/
theorem Sound.contains_ofName (sound : R.Sound) (unshared : R.Unshared name)
    (free : R.containsName name = false) : R.contains (.ofName name) = false := by
  refine Bool.eq_false_iff.2 fun taken => ?_
  obtain ⟨e, he⟩ := contains_eq_true_iff.1 taken
  have listed := sound.listed he
  rw [unshared _ listed, containsName_eq_false_iff.1 free] at listed
  cases listed

/-! ### Refusals that are no duplicates -/

theorem isDuplicate_of_checkInterfaces (h : R.checkInterfaces is = .error e) :
    e.isDuplicate = false := by
  induction is with
  | nil => cases h
  | cons i is ih =>
    unfold checkInterfaces checkInterface at h
    split at h
    · split at h
      · exact ih h
      · cases h
        rfl
    · cases h
      rfl

theorem isDuplicate_of_checkBase (h : R.checkBase base = .error e) : e.isDuplicate = false := by
  unfold checkBase at h
  split at h
  · split at h
    · cases h
      rfl
    · cases h
  · cases h
    rfl

/-- A class whose name is free is refused for its base or its interfaces only. -/
theorem isDuplicate_of_beginClass (free : R.containsName name = false)
    (h : R.beginClass name base is = .error e) : e.isDuplicate = false := by
  have available : R.checkName name = .ok () := by
    unfold checkName
    rw [free]
    rfl
  unfold beginClass at h
  rw [available] at h
  cases hbase : R.checkBase base with
  | error e' =>
    rw [hbase] at h
    cases h
    exact isDuplicate_of_checkBase hbase
  | ok u =>
    cases his : R.checkInterfaces is with
    | error e' =>
      rw [hbase, his] at h
      cases h
      exact isDuplicate_of_checkInterfaces his
    | ok v =>
      rw [hbase, his] at h
      cases h

end Registry

namespace SynthM

/-! ### The name -/

variable {o : Options} {stem name : String} {s t u : Session}

/-- The count that is found is one whose name is free. -/
theorem containsName_of_firstFree {R : Registry} {names : Nat → String} {n count m : Nat}
    (h : firstFree R names n count = some m) : R.containsName (names m) = false := by
  induction n generalizing count with
  | zero => cases h
  | succ n ih =>
    unfold firstFree at h
    split at h
    · exact ih h
    · rename_i free
      cases h
      exact Bool.eq_false_iff.2 free

/-- A drawn name is that of its stem at some count, and it is free. -/
theorem free_of_freshName (h : freshName o stem s = .ok name t) :
    (∃ count, name = nameAt o stem count) ∧ t.registry.containsName name = false := by
  unfold freshName at h
  split at h
  · rename_i count found
    cases h
    exact ⟨⟨count, rfl⟩, containsName_of_firstFree found⟩
  · cases h

/-- A drawn name ends in a digit. -/
theorem nameAt_starless (o : Options) (stem : String) (count : Nat) :
    (nameAt o stem count).toList.getLast? ≠ some '*' := by
  have digit : ∀ d < 16, Nat.digitChar d ≠ '*' := by decide
  generalize hn : (Digest.xxh64Text (UInt64.ofNat count) stem).toNat = n
  have last : (nameAt o stem count).toList.getLast? = some (Nat.digitChar (n % 16)) := by
    have eight : Text.hexDigits 8 n = Text.hexDigits 7 (n / 16) ++ [Nat.digitChar (n % 16)] := rfl
    unfold nameAt Options.qualify Text.hexNumeral
    split <;> simp only [hn, String.toList_append, String.toList_ofList, eight,
      ← List.append_assoc, List.getLast?_concat]
  rw [last]
  exact fun same => digit _ (Nat.mod_lt n (by decide)) (Option.some.inj same)

/-! ### What is left of a draft -/

/-- The rest of a wrapper's draft, once its invokers and its name are there. -/
def wrapperUnder (name : String) (invokers : List TypeId) : SynthM ClassType :=
  consult (·.beginClass name .object invokers) >>= invokers.foldlM declareInvoker

/-- The rest of the draft of an object literal, once its supertypes and its name are there. -/
def objectUnder (name : String) (head : ObjectHead) (methods : List MethodHead)
    (supers : Supertypes) : SynthM ClassType := do
  let draft ← consult (·.beginClass name supers.base supers.interfaces)
  let candidates := Candidates.collect (← registry) supers.base supers.requested
  let (draft, _) ← implementAll head.kind.construct candidates draft methods
  return declareMetadata (← registry) supers.metadata? draft

/-! ### Errors that are no duplicates -/

/-- The computation does not fail because a type is registered already. -/
abbrev Quiet {α : Type} (x : SynthM α) : Prop := Raises (·.isDuplicate = false) x

theorem quiet_registry : Quiet registry := ⟨nofun⟩

theorem quiet_resolveHint (construct : String) (hint? : Option TypeName) :
    Quiet (resolveHint construct hint?) := by
  cases hint? with
  | none => exact .pure _
  | some name =>
    refine ⟨fun {s t e} h => ?_⟩
    have h : resolveTypeName construct name s = .error e t := h
    unfold resolveTypeName at h
    split at h
    · cases h
    · cases h
      rfl

theorem quiet_resolveMethod (construct : String) (candidates : Candidates) (m : MethodHead) :
    Quiet (resolveMethod construct candidates m) := by
  refine (Raises.mapM (fun p : Param => quiet_resolveHint construct p.hint?) _).bind fun _ => ?_
  refine quiet_registry.bind fun _ => ?_
  split
  · exact .pure _
  · exact .throw rfl

theorem quiet_implementAll (construct : String) (candidates : Candidates) (draft : ClassType)
    (ms : List MethodHead) : Quiet (implementAll construct candidates draft ms) := by
  induction ms generalizing draft with
  | nil => exact .pure _
  | cons m ms ih => exact (quiet_resolveMethod ..).bind fun _ => (ih _).bind fun _ => .pure _

theorem quiet_declareInvoker (draft : ClassType) (i : TypeId) : Quiet (declareInvoker draft i) := by
  refine quiet_registry.bind fun _ => ?_
  split
  · exact .pure _
  · exact .throw rfl

/-! ### Reserved names -/

/-- The name is free from the session `u` on until the draft is done, wherever that ends.  The draft
is registered under it, and not refused because the name or its identity is taken, unless another
name shares the identity. -/
structure Reserves (name : String) (u : Session) (draft : SynthM ClassType) : Prop where
  free : (endState (draft u)).registry.containsName name = false
  named {c : ClassType} {t : Session} (h : draft u = .ok c t) : c.name = name
  finished {c : ClassType} {t : Session} (h : draft u = .ok c t)
    (unshared : t.registry.Unshared name) : finish c t =
      .ok ⟨name, .ofName name⟩ (t.withRegistry (t.registry.add (.classType c)))
  noDuplicate {e : CompilationError} {t : Session}
    (unshared : (endState (draft u)).registry.Unshared name)
    (h : (draft >>= finish) u = .error e t) : e.isDuplicate = false

/-- A draft reserves its name if it is made by reading type names and fails for other reasons. -/
theorem reserves_of_points {draft : SynthM ClassType} (sound : u.registry.Sound)
    (starless : name.toList.getLast? ≠ some '*') (drawn : u.registry.containsName name = false)
    (points : u.Points (endState (draft u))) (named : ∀ {c t}, draft u = .ok c t → c.name = name)
    (quiet : ∀ {e t}, draft u = .error e t → e.isDuplicate = false) : Reserves name u draft := by
  have free : (endState (draft u)).registry.containsName name = false := by
    rw [Registry.Points.containsName_eq points starless]
    exact drawn
  have finished {c : ClassType} {t : Session} (h : draft u = .ok c t)
      (unshared : t.registry.Unshared name) : finish c t =
        .ok ⟨name, .ofName name⟩ (t.withRegistry (t.registry.add (.classType c))) := by
    rw [h] at points free
    have sound' := sound.of_grows (Registry.Points.grows points)
    obtain rfl := named h
    exact finish_eq_ok free (sound'.contains_ofName unshared free)
  refine ⟨free, named, finished, fun {e t} unshared h => ?_⟩
  cases hx : draft u with
  | ok c v =>
    rw [hx] at unshared
    rw [bind_run_ok hx, finished hx unshared] at h
    cases h
  | error e' v =>
    rw [bind_run_error hx] at h
    cases h
    exact quiet hx

/-- A draft that begins a class under a drawn name reserves the name. -/
theorem reserves_beginClass {base : TypeId} {is : List TypeId} {rest : ClassType → SynthM ClassType}
    (sound : u.registry.Sound) (drawn : freshName o stem s = .ok name u)
    (points : ∀ c, Moves Session.Points (rest c)) (quiet : ∀ c, Quiet (rest c))
    (record : ∀ {c c' s t}, c.IsRecord name [] → rest c s = .ok c' t → c'.IsRecord name []) :
    Reserves name u (consult (·.beginClass name base is) >>= rest) := by
  obtain ⟨⟨count, rfl⟩, free⟩ := free_of_freshName drawn
  refine reserves_of_points sound (nameAt_starless o stem count) free
    (((moves_consult _).bind points).run u) (fun h => ?_) (fun h => ?_)
  · obtain ⟨start, v, begun, h⟩ := bind_eq_ok_iff.1 h
    exact (record (isRecord_beginClass (consult_eq_ok_iff.1 begun).1) h).name_eq
  · cases begun : consult (·.beginClass (nameAt o stem count) base is) u with
    | ok c v =>
      rw [bind_run_ok begun] at h
      exact (quiet c).run h
    | error e v =>
      rw [bind_run_error begun] at h
      cases h
      obtain ⟨refusal, refused, rfl⟩ := consult_eq_error begun
      exact Registry.isDuplicate_of_beginClass free refused

theorem reserves_wrapperUnder {invokers : List TypeId} (sound : u.registry.Sound)
    (drawn : freshName o stem s = .ok name u) : Reserves name u (wrapperUnder name invokers) :=
  reserves_beginClass sound drawn
    (fun c => Moves.foldlM Session.Prepared.declareInvoker invokers c)
    (fun c => Raises.foldlM quiet_declareInvoker invokers c)
    (fun hc h => foldlM_invariant (I := fun c : ClassType => c.IsRecord name [])
      isRecord_declareInvoker hc h)

theorem reserves_objectUnder {head : ObjectHead} {ms : List MethodHead} {supers : Supertypes}
    (sound : u.registry.Sound) (drawn : freshName o stem s = .ok name u) :
    Reserves name u (objectUnder name head ms supers) := by
  refine reserves_beginClass sound drawn (fun c => ?_) (fun c => ?_) (fun hc h => ?_)
  · refine moves_registry.bind fun _ => ?_
    refine (Session.points_pointing.methods ..).bind fun _ => ?_
    exact moves_registry.bind fun _ => .pure _
  · refine quiet_registry.bind fun _ => ?_
    refine (quiet_implementAll ..).bind fun _ => ?_
    exact quiet_registry.bind fun _ => .pure _
  · obtain ⟨R, _, -, h⟩ := bind_eq_ok_iff.1 h
    obtain ⟨⟨c₂, heads⟩, _, hmethods, h⟩ := bind_eq_ok_iff.1 h
    obtain ⟨R', _, -, h⟩ := bind_eq_ok_iff.1 h
    obtain ⟨rfl, rfl⟩ := pure_eq_ok_iff.1 h
    exact isRecord_declareMetadata (isRecord_implementAll hc hmethods)

end SynthM

end TypeSynthesis
