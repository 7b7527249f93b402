import TypeSynthesis.Proofs.Definitions.Constructs

/-!
# What a session goes through

A run takes a session through steps that make ready for a definition and through syntheses that
succeed.  Only the latter define a type, each in its last step.

* `Session.Readies s t`: steps before a definition lead from `s` to `t`;
* `Session.Readies.along`: so they lead along every preorder that each of the steps respects;
* `Construct.readies_of_error`: a synthesis that fails has come no further than to make ready;
* `Construct.exists_register`: one that succeeds has made ready and then registers the type;
* `Session.Through o s made t`: a passage from `s` to `t` on which the constructs `made` are given
  their types, in order and each with its descriptor;
* `Session.Through.gains`: what the registry has gained on the way.
-/

namespace TypeSynthesis

open SynthM Registry

/-! ### Steps before a definition -/

/-- Steps before a definition lead from the first session to the second. -/
inductive Session.Readies (s : Session) : Session → Prop
  | refl : Readies s s
  | pointer {t : Session} (h : Readies s t) (p : PointerType) :
      Readies s (t.withRegistry (t.registry.provide (.pointerType p)))
  | invoker {t : Session} {n : Nat} {i : TypeId} {R : Registry} (h : Readies s t)
      (asked : t.registry.invoker n = .ok (i, R)) : Readies s (t.withRegistry R)
  | instantiate {t : Session} {n : Nat} {e : Entry} {args : List TypeRef} {i : TypeId}
      {R : Registry} (h : Readies s t) (known : t.registry.find? (invokerName n) = some e)
      (asked : t.registry.instantiate e.id args = .ok (i, R)) : Readies s (t.withRegistry R)
  | draw {t : Session} {n : Nat} (h : Readies s t) (later : t.counter < n) :
      Readies s { t with counter := n }

namespace Session

variable {s t u : Session}

theorem Readies.trans (h : s.Readies t) (h' : t.Readies u) : s.Readies u := by
  induction h' with
  | refl => exact h
  | pointer _ p ih => exact ih.pointer p
  | invoker _ asked ih => exact ih.invoker asked
  | instantiate _ known asked ih => exact ih.instantiate known asked
  | draw _ later ih => exact ih.draw later

instance : IsPreorder Session Readies where
  refl _ := .refl
  trans _ _ _ := Readies.trans

theorem readies_prepared : Prepared Readies where
  pointer _ p := Readies.refl.pointer p
  invoker asked := Readies.refl.invoker asked
  instantiate known asked := Readies.refl.instantiate known asked
  draw later := Readies.refl.draw later

/-- Among the preorders that the steps respect, this one is the least. -/
theorem Readies.along {r : Session → Session → Prop} [IsPreorder Session r] (hr : Prepared r)
    (h : s.Readies t) : r s t := by
  induction h with
  | refl => exact refl_of r s
  | pointer _ p ih => exact trans_of r ih (hr.pointer _ p)
  | invoker _ asked ih => exact trans_of r ih (hr.invoker asked)
  | instantiate _ known asked ih => exact trans_of r ih (hr.instantiate known asked)
  | draw _ later ih => exact trans_of r ih (hr.draw later)

theorem Readies.idle (h : s.Readies t) : s.Idle t := h.along idle_prepared

end Session

/-! ### The synthesis of a construct -/

/-- What fails to be registered leaves the session as it is. -/
theorem extend_eq_error {α : Type} {f : Registry → Except RegistrationError (α × Registry)}
    {s t : Session} {e : CompilationError} (h : extend f s = .error e t) : t = s := by
  unfold extend at h
  split at h
  · cases h
  · cases h
    rfl

/-- Where a step fails without any change to the session, nothing has happened but what went before
it. -/
theorem moves_of_error {r : Session → Session → Prop} {α β : Type} {x : SynthM α}
    {f : α → SynthM β} {s t : Session} {e : CompilationError} (hx : Moves r x)
    (hf : ∀ {a u v e}, f a u = .error e v → v = u) (h : (x >>= f) s = .error e t) : r s t := by
  cases first : x s with
  | error e' u =>
    rw [bind_run_error first] at h
    cases h
    have := hx.run s
    rwa [first] at this
  | ok a u =>
    rw [bind_run_ok first] at h
    rw [hf h]
    exact hx.of_ok first

/-- A synthesis that fails has come no further than to prepare its draft, whichever its steps are
and wherever it fails. -/
theorem Session.Prepared.of_error {r : Session → Session → Prop} [IsPreorder Session r]
    (hr : Session.Prepared r) {o : Options} {c : Construct} {s t : Session}
    {e : CompilationError} (h : c.synthesize o s = .error e t) : r s t := by
  cases c with
  | fn name? as =>
    have failed := eq_error_of_map h
    rw [synthesizeWrapper_eq] at failed
    exact moves_of_error (hr.draftWrapper ..) (fun h => extend_eq_error (eq_error_of_map h)) failed
  | record head ms =>
    have failed := eq_error_of_map h
    rw [synthesizeRecord_eq] at failed
    exact moves_of_error (hr.draftRecord ..) (fun h => extend_eq_error (eq_error_of_map h)) failed
  | object head ms =>
    have failed := eq_error_of_map h
    rw [synthesizeObject_eq] at failed
    exact moves_of_error (hr.draftObject ..) (fun h => extend_eq_error (eq_error_of_map h)) failed
  | interface head =>
    have failed := h
    rw [Construct.synthesize, synthesizeInterface_eq] at failed
    exact moves_of_error (hr.draftInterface ..) extend_eq_error failed

/-- A class is registered in the last step of its synthesis. -/
theorem exists_register_class {β : Type} {draft : SynthM (ClassType × β)}
    (ready : Moves Session.Readies draft)
    (new : ∀ {s x t}, draft s = .ok x t → x.1.origin = .synthesized) {s t : Session}
    {r : Descriptor × β} (h : (draft >>= fun x => do return (← finish x.1, x.2)) s = .ok r t) :
    ∃ u e, s.Readies u ∧ e.Defines false ∧ u.registry.register e = .ok t.registry ∧
      r.1 = ⟨e.name, e.id⟩ := by
  obtain ⟨⟨draft, b⟩, u, hx, h⟩ := bind_eq_ok_iff.1 h
  obtain ⟨d, v, hd, h⟩ := bind_eq_ok_iff.1 h
  obtain ⟨rfl, rfl⟩ := pure_eq_ok_iff.1 h
  obtain ⟨registers, rfl⟩ := register_of_finish hd
  exact ⟨u, .classType draft, ready.of_ok hx, .ofClass draft (new hx), registers, rfl⟩

namespace Construct

variable {o : Options} {c : Construct} {s t : Session} {d : Descriptor} {e : CompilationError}

theorem readies_of_error (h : c.synthesize o s = .error e t) : s.Readies t :=
  Session.readies_prepared.of_error h

/-- The synthesis of a construct registers the type in its last step, and its descriptor is that of
the type. -/
theorem exists_register (h : c.synthesize o s = .ok d t) :
    ∃ u e, s.Readies u ∧ e.Defines c.isInterface ∧ u.registry.register e = .ok t.registry ∧
      d = ⟨e.name, e.id⟩ := by
  have ready := Session.readies_prepared
  cases c with
  | fn name? as =>
    obtain ⟨r, u, made, hd⟩ := bind_eq_ok_iff.1 h
    obtain ⟨rfl, rfl⟩ := pure_eq_ok_iff.1 hd
    rw [synthesizeWrapper_eq] at made
    refine exists_register_class (ready.draftWrapper ..) (fun h => ?_) made
    obtain ⟨name, record⟩ := isRecord_draftWrapper h
    exact record.origin
  | record head ms =>
    obtain ⟨r, u, made, hd⟩ := bind_eq_ok_iff.1 h
    obtain ⟨rfl, rfl⟩ := pure_eq_ok_iff.1 hd
    rw [synthesizeRecord_eq] at made
    exact exists_register_class (ready.draftRecord ..)
      (fun h => (isRecord_draftRecord h).origin) made
  | object head ms =>
    obtain ⟨r, u, made, hd⟩ := bind_eq_ok_iff.1 h
    obtain ⟨rfl, rfl⟩ := pure_eq_ok_iff.1 hd
    rw [synthesizeObject_eq] at made
    refine exists_register_class (ready.draftObject ..) (fun h => ?_) made
    obtain ⟨name, record⟩ := isRecord_draftObject h
    exact record.origin
  | interface head =>
    have h : (draftInterface o head >>= finishInterface) s = .ok d t := by
      rw [← synthesizeInterface_eq]
      exact h
    obtain ⟨i, u, hi, hd⟩ := bind_eq_ok_iff.1 h
    obtain ⟨registers, rfl⟩ := register_of_finishInterface hd
    exact ⟨u, .interfaceType i, (ready.draftInterface o head).of_ok hi,
      .ofInterface i (plain_draftInterface hi), registers, rfl⟩

theorem grows (h : c.synthesize o s = .ok d t) : s.Grows t := by
  obtain ⟨u, e, ready, -, registers, -⟩ := exists_register h
  exact Grows.trans ready.idle.grows (grows_register registers)

end Construct

/-! ### Passages -/

/-- Steps before definitions and syntheses that succeed lead from the first session to the second.
The syntheses are those of the constructs `made`, in order and each with the descriptor that it has
given. -/
inductive Session.Through (o : Options) (s : Session) :
    List (Construct × Descriptor) → Session → Prop
  | refl : Through o s [] s
  | readies {made : List (Construct × Descriptor)} {t u : Session} (h : Through o s made t)
      (next : t.Readies u) : Through o s made u
  | makes {made : List (Construct × Descriptor)} {t u : Session} {c : Construct} {d : Descriptor}
      (h : Through o s made t) (next : c.synthesize o t = .ok d u) :
      Through o s (made ++ [(c, d)]) u

namespace Session.Through

variable {o : Options} {s t u : Session} {made made' : List (Construct × Descriptor)}

theorem trans (h : s.Through o made t) (h' : t.Through o made' u) :
    s.Through o (made ++ made') u := by
  induction h' with
  | refl => rwa [List.append_nil]
  | readies _ next ih => exact ih.readies next
  | makes _ next ih =>
    rw [← List.append_assoc]
    exact ih.makes next

/-- The synthesized types that are gained on the way are those of the constructs. -/
theorem gains (h : s.Through o made t) (sound : s.registry.Sound)
    (hosted : s.registry.HostInvokers) (distinct : t.registry.Distinct) :
    s.registry.Gains o t.registry (made.map Prod.fst) := by
  induction h with
  | refl => exact .refl _
  | readies _ next ih =>
    have before := ih (distinct.of_grows next.idle.grows)
    have after := next.idle.gains o (sound.of_grows before.grows) (before.hostInvokers hosted)
      distinct
    have both := before.trans after
    rwa [List.append_nil] at both
  | makes _ next ih =>
    have before := ih (distinct.of_grows (Construct.grows next))
    obtain ⟨v, e, ready, defines, registers, rfl⟩ := Construct.exists_register next
    rw [List.map_append]
    exact before.trans (gains_define ready.idle defines registers next
      (sound.of_grows before.grows) (before.hostInvokers hosted) distinct)

end Session.Through

end TypeSynthesis
