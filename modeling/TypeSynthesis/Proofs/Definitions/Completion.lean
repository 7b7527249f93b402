import TypeSynthesis.Proofs.Definitions.Trace

/-!
# Computations that complete constructs

A run comes to the constructs of a form in their order, and registers a type for each.  Where it
fails, it has come through the first few of them.

* `Completes o x cs`: every run of `x` completes the first few of the constructs `cs`, and all of
  them if it succeeds;
* `Completes.bind`, `Completes.inScope`, `completes_synthesize`: how computations that complete
  constructs are put together.
-/

namespace TypeSynthesis

open ResolveM SynthM Node Registry

/-! ### Computations that complete constructs -/

/-- Every run completes the first few of the constructs `cs`, and all of them if it succeeds. -/
structure Completes {α : Type} (o : Options) (x : ResolveM α) (cs : List Construct) : Prop where
  run (s : ResolveState) : ∃ made, s.session.Through o made (endState (x s)).session ∧
    made.map Prod.fst <+: cs ∧ ∀ a t, x s = .ok a t → made.map Prod.fst = cs

namespace Completes

variable {α β : Type} {o : Options} {cs cs' : List Construct}

/-- The first step completes some constructs and the second the rest.  What every result of the
first satisfies is known to the second. -/
theorem bind_of {x : ResolveM α} {f : α → ResolveM β} {C : α → Prop} (hx : Completes o x cs)
    (hC : ∀ {a s t}, x s = .ok a t → C a) (hf : ∀ a, C a → Completes o (f a) cs') :
    Completes o (x >>= f) (cs ++ cs') where
  run s := by
    obtain ⟨made, through, initial, full⟩ := hx.run s
    cases h : x s with
    | error e t =>
      -- the rest is not run, so that the constructs of the first step are all there are
      rw [bind_run_error h]
      rw [h] at through
      exact ⟨made, through, initial.trans (List.prefix_append cs cs'), nofun⟩
    | ok a t =>
      obtain ⟨made', through', initial', full'⟩ := (hf a (hC h)).run t
      rw [bind_run_ok h]
      rw [h] at through
      rw [← full a t h]
      refine ⟨made ++ made', through.trans through', ?_, fun b u h' => ?_⟩
      · rw [List.map_append]
        exact (List.prefix_append_right_inj _).2 initial'
      · rw [List.map_append, full' b u h']

theorem bind {x : ResolveM α} {f : α → ResolveM β} (hx : Completes o x cs)
    (hf : ∀ a, Completes o (f a) cs') : Completes o (x >>= f) (cs ++ cs') :=
  hx.bind_of (C := fun _ => True) (fun _ => trivial) fun a _ => hf a

/-- What comes first and completes nothing leaves the constructs to the rest. -/
theorem after {x : ResolveM α} {f : α → ResolveM β} (hx : Completes o x [])
    (hf : ∀ a, Completes o (f a) cs) : Completes o (x >>= f) cs :=
  hx.bind hf

/-- What comes last and completes nothing adds no construct. -/
theorem andThen {x : ResolveM α} {f : α → ResolveM β} (hx : Completes o x cs)
    (hf : ∀ a, Completes o (f a) []) : Completes o (x >>= f) cs := by
  have h := hx.bind hf
  rwa [List.append_nil] at h

/-- Steps before a definition complete nothing. -/
theorem of_readies {x : ResolveM α} (h : Moves (ResolveState.Along Session.Readies) x) :
    Completes o x [] where
  run s := ⟨[], Session.Through.refl.readies (h.run s), List.nil_prefix, fun _ _ _ => rfl⟩

theorem pure (a : α) : Completes o (Pure.pure a) [] := of_readies (.pure a)

theorem inScope {x : ResolveM α} (hx : Completes o x cs) :
    Completes o (ResolveM.inScope x) cs where
  run s := by
    obtain ⟨made, through, initial, full⟩ := hx.run { s with scope := s.scope.push }
    unfold ResolveM.inScope
    cases h : x { s with scope := s.scope.push } with
    | error e t =>
      rw [h] at through
      exact ⟨made, through, initial, nofun⟩
    | ok a t =>
      rw [h] at through
      exact ⟨made, through, initial, fun _ _ _ => full a t h⟩

end Completes

variable {o : Options}

theorem completes_binds {f : TypeMap → TypeMap} {x : ResolveM Unit} (h : Binds f x) :
    Completes o x [] :=
  .of_readies ((still_binds h).mono fun s _ same =>
    (congrArg s.session.Readies same).mp .refl)

theorem completes_refineBindings (p : Pipeline) (bs : List LetBinding) :
    Completes o (refineBindings p bs) [] :=
  (Completes.of_readies moves_registry).after fun _ =>
    (completes_binds (binds_rebind _)).after fun _ => .pure _

theorem completes_finish (p : Pipeline) (n : Node) : Completes o (finish p n) [] :=
  .of_readies (moves_finish p n)

/-- A form is finished when all its parts are done. -/
theorem Completes.finish {α : Type} {x : ResolveM α} {cs : List Construct} (hx : Completes o x cs)
    (p : Pipeline) (form : α → Node) :
    Completes o (x >>= fun a => ResolveM.finish p (form a)) cs :=
  hx.andThen fun a => completes_finish p (form a)

theorem completes_typeName (construct : String) (name : TypeName) :
    Completes o (synthesize (resolveTypeName construct name)) [] := by
  refine .of_readies ⟨fun s => ?_⟩
  have h := (Session.readies_prepared.typeName construct name).run s.session
  unfold synthesize
  revert h
  cases resolveTypeName construct name s.session <;> exact id

/-- The synthesis of a construct completes it, if it does not fail. -/
theorem completes_synthesize {α : Type} {x : SynthM α} {g : α → Descriptor} {c : Construct}
    (hc : c.synthesize o = do return g (← x)) : Completes o (synthesize x) [c] where
  run s := by
    unfold synthesize
    cases hx : x s.session with
    | error e t =>
      have failed : c.synthesize o s.session = .error e t := by
        rw [hc]
        exact bind_run_error hx
      exact ⟨[], Session.Through.refl.readies (Construct.readies_of_error failed),
        List.nil_prefix, nofun⟩
    | ok a t =>
      have made : c.synthesize o s.session = .ok (g a) t := by
        rw [hc]
        exact bind_run_ok hx
      exact ⟨[(c, g a)], Session.Through.refl.makes made, List.prefix_rfl, fun _ _ _ => rfl⟩

end TypeSynthesis
