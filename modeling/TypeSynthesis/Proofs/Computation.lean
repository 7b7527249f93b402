import Mathlib.Data.List.Forall2
import Mathlib.Order.Defs.Unbundled

/-!
# Computations with a state and errors

What can be said of a computation without looking at what it computes.

* `endState`: the state in which a run ends, whether it succeeds or fails;
* `Moves r x`: every run of `x` takes its state along the relation `r`;
* `bind_eq_ok_iff` and its kin: what a successful run is made of;
* `Raises P x`: every error of `x` satisfies `P`;
* `mapM_eq_ok_at`, `mapM_eq_error`: a loop over a list at one of its elements.

A preorder passes from the steps of a computation to the whole of it (`Moves.bind`, `Moves.mapM`,
`Moves.foldlM`), also where a step fails and the rest is not run.
-/

namespace TypeSynthesis

variable {ε σ α β : Type}

/-! ### Runs step by step -/

/-- The rest of a computation runs where its first step has succeeded. -/
theorem bind_run_ok {x : EStateM ε σ α} {f : α → EStateM ε σ β} {s t : σ} {a : α}
    (h : x s = .ok a t) : (x >>= f) s = f a t := by
  change EStateM.bind x f s = _
  unfold EStateM.bind
  rw [h]

/-- A computation fails where its first step has failed. -/
theorem bind_run_error {x : EStateM ε σ α} {f : α → EStateM ε σ β} {s t : σ} {e : ε}
    (h : x s = .error e t) : (x >>= f) s = .error e t := by
  change EStateM.bind x f s = _
  unfold EStateM.bind
  rw [h]

/-- A computation whose result is changed in the end fails only where it fails itself. -/
theorem eq_error_of_map {x : EStateM ε σ α} {g : α → β} {s t : σ} {e : ε}
    (h : (x >>= fun a => pure (g a)) s = .error e t) : x s = .error e t := by
  cases hx : x s with
  | ok a u =>
    rw [bind_run_ok hx] at h
    cases h
  | error e' u =>
    rw [bind_run_error hx] at h
    cases h
    rfl

/-! ### Successful runs -/

theorem bind_eq_ok_iff {x : EStateM ε σ α} {f : α → EStateM ε σ β} {s u : σ} {b : β} :
    (x >>= f) s = .ok b u ↔ ∃ a t, x s = .ok a t ∧ f a t = .ok b u := by
  constructor
  · intro h
    cases hx : x s with
    | ok a t => rw [bind_run_ok hx] at h; exact ⟨a, t, rfl, h⟩
    | error e t => rw [bind_run_error hx] at h; cases h
  · rintro ⟨a, t, hx, hf⟩
    rw [bind_run_ok hx]
    exact hf

theorem pure_eq_ok_iff {a b : α} {s t : σ} :
    (pure a : EStateM ε σ α) s = .ok b t ↔ a = b ∧ s = t := by
  constructor
  · intro h; cases h; exact ⟨rfl, rfl⟩
  · rintro ⟨rfl, rfl⟩; rfl

theorem ofExcept_eq_ok_iff {x : Except ε α} {a : α} {s t : σ} :
    (ofExcept x : EStateM ε σ α) s = .ok a t ↔ x = .ok a ∧ s = t := by
  cases x with
  | ok b =>
    change (pure b : EStateM ε σ α) s = .ok a t ↔ _
    rw [pure_eq_ok_iff, Except.ok.injEq]
  | error e =>
    constructor
    · intro h; cases h
    · rintro ⟨h, -⟩; cases h

theorem except_bind_eq_ok_iff {x : Except ε α} {f : α → Except ε β} {b : β} :
    (x >>= f) = .ok b ↔ ∃ a, x = .ok a ∧ f a = .ok b := by
  constructor
  · intro h
    cases x with
    | ok a => exact ⟨a, rfl, h⟩
    | error e => cases h
  · rintro ⟨a, rfl, h⟩
    exact h

theorem throw_ne_ok {e : ε} {a : α} {s t : σ} : (throw e : EStateM ε σ α) s ≠ .ok a t :=
  fun h => nomatch h

/-- Two computations that start alike, and go on alike wherever that leads, run alike. -/
theorem bind_congr_run {x y : EStateM ε σ α} {f g : α → EStateM ε σ β} {s : σ} (hx : x s = y s)
    (hf : ∀ a t, y s = .ok a t → f a t = g a t) : (x >>= f) s = (y >>= g) s := by
  cases hy : y s with
  | ok a t => rw [bind_run_ok hy, bind_run_ok (hx.trans hy), hf a t hy]
  | error e t => rw [bind_run_error hy, bind_run_error (hx.trans hy)]

/-- Whether a run succeeds with a result and a state that pass a test. -/
def accepted (p : α → σ → Bool) : EStateM.Result ε σ α → Bool
  | .ok a s => p a s
  | .error .. => false

theorem exists_of_accepted {p : α → σ → Bool} {r : EStateM.Result ε σ α}
    (h : accepted p r = true) : ∃ a s, r = .ok a s ∧ p a s = true := by
  cases r with
  | ok a s => exact ⟨a, s, rfl, h⟩
  | error e s => cases h

/-- Whether a run fails with a state that passes a test. -/
def rejected (q : σ → Bool) : EStateM.Result ε σ α → Bool
  | .error _ s => q s
  | .ok .. => false

theorem exists_of_rejected {q : σ → Bool} {r : EStateM.Result ε σ α}
    (h : rejected q r = true) : ∃ e s, r = .error e s ∧ q s = true := by
  cases r with
  | error e s => exact ⟨e, s, rfl, h⟩
  | ok a s => cases h

/-! ### Loops over lists -/

section Loops

variable {γ : Type} {f : α → EStateM ε σ β} {l before after : List α} {a : α} {bs : List β}
  {s t : σ} {e : ε}

/-- Each element is run where the elements before it have led. -/
theorem mapM_eq_ok_at (h : (before ++ a :: after).mapM f s = .ok bs t) :
    ∃ bs₁ b bs₂ u v, bs = bs₁ ++ b :: bs₂ ∧ before.mapM f s = .ok bs₁ u ∧ f a u = .ok b v ∧
      after.mapM f v = .ok bs₂ t := by
  rw [List.mapM_append] at h
  obtain ⟨bs₁, u, first, h⟩ := bind_eq_ok_iff.1 h
  obtain ⟨bs', v, rest, h⟩ := bind_eq_ok_iff.1 h
  obtain ⟨rfl, rfl⟩ := pure_eq_ok_iff.1 h
  rw [List.mapM_cons] at rest
  obtain ⟨b, w, here, rest⟩ := bind_eq_ok_iff.1 rest
  obtain ⟨bs₂, x, last, rest⟩ := bind_eq_ok_iff.1 rest
  obtain ⟨rfl, rfl⟩ := pure_eq_ok_iff.1 rest
  exact ⟨bs₁, b, bs₂, u, w, rfl, first, here, last⟩

/-- A loop fails at the first element that fails. -/
theorem mapM_eq_error (h : l.mapM f s = .error e t) :
    ∃ before a after bs u, l = before ++ a :: after ∧ before.mapM f s = .ok bs u ∧
      f a u = .error e t := by
  induction l generalizing s with
  | nil => cases h
  | cons a l ih =>
    rw [List.mapM_cons] at h
    cases first : f a s with
    | error e' u =>
      rw [bind_run_error first] at h
      cases h
      exact ⟨[], a, l, [], s, rfl, rfl, first⟩
    | ok b u =>
      rw [bind_run_ok first] at h
      obtain ⟨before, a', after, bs, v, rfl, rest, failed⟩ := ih (eq_error_of_map h)
      refine ⟨a :: before, a', after, b :: bs, v, rfl, ?_, failed⟩
      rw [List.mapM_cons, bind_run_ok first, bind_run_ok rest]
      rfl

/-- A loop that pairs its results with its elements is the loop without them, paired in the end. -/
theorem mapM_return (g : α → β → γ) (f : α → EStateM ε σ β) (l : List α) :
    (l.mapM fun a => do return g a (← f a)) = do return l.zipWith g (← l.mapM f) := by
  induction l with
  | nil => simp
  | cons a l ih =>
    rw [List.mapM_cons, ih, List.mapM_cons]
    simp only [bind_assoc, pure_bind, List.zipWith_cons_cons]

end Loops

/-! ### Errors -/

/-- Every run that fails does so with an error that satisfies `P`. -/
structure Raises (P : ε → Prop) (x : EStateM ε σ α) : Prop where
  run {s t : σ} {e : ε} (h : x s = .error e t) : P e

namespace Raises

variable {P : ε → Prop}

theorem pure (a : α) : Raises P (Pure.pure a : EStateM ε σ α) := ⟨nofun⟩

theorem throw {e : ε} (h : P e) : Raises P (throw e : EStateM ε σ α) where
  run failed := by
    cases failed
    exact h

theorem bind {x : EStateM ε σ α} {f : α → EStateM ε σ β} (hx : Raises P x)
    (hf : ∀ a, Raises P (f a)) : Raises P (x >>= f) where
  run {s t e} h := by
    cases first : x s with
    | error e' u =>
      rw [bind_run_error first] at h
      cases h
      exact hx.run first
    | ok a u =>
      rw [bind_run_ok first] at h
      exact (hf a).run h

theorem mapM {f : α → EStateM ε σ β} (hf : ∀ a, Raises P (f a)) (l : List α) :
    Raises P (l.mapM f) where
  run h := by
    obtain ⟨before, a, after, bs, u, -, -, failed⟩ := mapM_eq_error h
    exact (hf a).run failed

theorem foldlM {f : β → α → EStateM ε σ β} (hf : ∀ b a, Raises P (f b a)) (l : List α) (b : β) :
    Raises P (l.foldlM f b) := by
  induction l generalizing b with
  | nil => exact pure b
  | cons a l ih =>
    rw [List.foldlM_cons]
    exact (hf b a).bind ih

end Raises

/-! ### Where runs end -/

/-- The state in which a run ends, whether it succeeds or fails. -/
def endState : EStateM.Result ε σ α → σ
  | .ok _ s | .error _ s => s

@[simp] theorem endState_ok (a : α) (s : σ) : endState (.ok a s : EStateM.Result ε σ α) = s := rfl

@[simp] theorem endState_error (e : ε) (s : σ) :
    endState (.error e s : EStateM.Result ε σ α) = s := rfl

/-- Every run, successful or failing, takes the state along a relation. -/
structure Moves (r : σ → σ → Prop) (x : EStateM ε σ α) : Prop where
  run (s : σ) : r s (endState (x s))

namespace Moves

variable {r : σ → σ → Prop}

theorem of_ok {x : EStateM ε σ α} (h : Moves r x) {s t : σ} {a : α} (hx : x s = .ok a t) :
    r s t := by
  have := h.run s
  rwa [hx] at this

theorem mono {q : σ → σ → Prop} (hqr : ∀ s t, q s t → r s t) {x : EStateM ε σ α}
    (h : Moves q x) : Moves r x :=
  ⟨fun s => hqr _ _ (h.run s)⟩

variable [IsPreorder σ r]

theorem of_id {x : EStateM ε σ α} (h : ∀ s, endState (x s) = s) : Moves r x :=
  ⟨fun s => by rw [h s]; exact refl_of r s⟩

theorem pure (a : α) : Moves r (Pure.pure a : EStateM ε σ α) := of_id fun _ => rfl

theorem throw (e : ε) : Moves r (throw e : EStateM ε σ α) := of_id fun _ => rfl

theorem ofExcept (x : Except ε α) : Moves r (ofExcept x : EStateM ε σ α) := by
  cases x with
  | ok a => exact pure a
  | error e => exact throw e

/-- The rest starts where the first step has succeeded. -/
theorem trans_bind {x : EStateM ε σ α} {f : α → EStateM ε σ β} {s : σ} (hx : r s (endState (x s)))
    (hf : ∀ a t, x s = .ok a t → r t (endState (f a t))) : r s (endState ((x >>= f) s)) := by
  cases hs : x s with
  | ok a t =>
    rw [hs] at hx
    rw [bind_run_ok hs]
    exact trans_of r hx (hf a t hs)
  | error e t =>
    -- the rest is not run, so that the first step alone has moved the state
    rw [hs] at hx
    rw [bind_run_error hs]
    exact hx

theorem bind {x : EStateM ε σ α} {f : α → EStateM ε σ β} (hx : Moves r x)
    (hf : ∀ a, Moves r (f a)) : Moves r (x >>= f) where
  run s := trans_bind (hx.run s) fun a t _ => (hf a).run t

/-- What every result of the first step satisfies is known to the rest. -/
theorem bind_of {x : EStateM ε σ α} {f : α → EStateM ε σ β} {P : α → Prop} (hx : Moves r x)
    (hP : ∀ {a s t}, x s = .ok a t → P a) (hf : ∀ a, P a → Moves r (f a)) :
    Moves r (x >>= f) where
  run s := trans_bind (hx.run s) fun a t h => (hf a (hP h)).run t

theorem mapM {f : α → EStateM ε σ β} (hf : ∀ a, Moves r (f a)) (l : List α) :
    Moves r (l.mapM f) := by
  induction l with
  | nil => rw [List.mapM_nil]; exact pure []
  | cons a l ih =>
    rw [List.mapM_cons]
    exact (hf a).bind fun b => ih.bind fun bs => pure (b :: bs)

theorem foldlM {f : β → α → EStateM ε σ β} (hf : ∀ b a, Moves r (f b a)) (l : List α) (b : β) :
    Moves r (l.foldlM f b) := by
  induction l generalizing b with
  | nil => exact pure b
  | cons a l ih =>
    rw [List.foldlM_cons]
    exact (hf b a).bind ih

/-- The results of a loop over a list are those of its elements, each run at some point of the
whole. -/
theorem forall₂_mapM {f : α → EStateM ε σ β} (hf : ∀ a, Moves r (f a)) {l : List α} {bs : List β}
    {s t : σ} (h : l.mapM f s = .ok bs t) :
    List.Forall₂ (fun a b => ∃ u v, r s u ∧ f a u = .ok b v ∧ r v t) l bs := by
  induction l generalizing bs s with
  | nil =>
    rw [List.mapM_nil] at h
    obtain ⟨rfl, -⟩ := pure_eq_ok_iff.1 h
    exact .nil
  | cons a l ih =>
    rw [List.mapM_cons] at h
    obtain ⟨b, u, hb, h⟩ := bind_eq_ok_iff.1 h
    obtain ⟨bs', v, hbs, h⟩ := bind_eq_ok_iff.1 h
    obtain ⟨rfl, rfl⟩ := pure_eq_ok_iff.1 h
    have rest : r u v := (mapM hf l).of_ok hbs
    refine .cons ⟨s, u, refl_of r s, hb, rest⟩ ((ih hbs).imp ?_)
    rintro a' b' ⟨u', v', hu', ha', hv'⟩
    exact ⟨u', v', trans_of r ((hf a).of_ok hb) hu', ha', hv'⟩

/-- A loop succeeds where each of its elements succeeds from the start of the loop on. -/
theorem exists_mapM_eq_ok {f : α → EStateM ε σ β} (hf : ∀ a, Moves r (f a)) {l : List α} {s : σ}
    (total : ∀ a ∈ l, ∀ u, r s u → ∃ b v, f a u = .ok b v) : ∃ bs t, l.mapM f s = .ok bs t := by
  induction l generalizing s with
  | nil => exact ⟨[], s, rfl⟩
  | cons a l ih =>
    obtain ⟨b, u, hb⟩ := total a List.mem_cons_self s (refl_of r s)
    obtain ⟨bs, t, hbs⟩ := ih fun a' ha' v hv =>
      total a' (List.mem_cons_of_mem a ha') v (trans_of r ((hf a).of_ok hb) hv)
    refine ⟨b :: bs, t, ?_⟩
    rw [List.mapM_cons, bind_run_ok hb, bind_run_ok hbs]
    rfl

end Moves

/-- What every result of `f` satisfies, all results of a loop over a list satisfy. -/
theorem forall_mem_of_mapM {f : α → EStateM ε σ β} {P : β → Prop}
    (hf : ∀ {a s b t}, f a s = .ok b t → P b) {l : List α} {bs : List β} {s t : σ}
    (h : l.mapM f s = .ok bs t) : ∀ b ∈ bs, P b := by
  induction l generalizing bs s with
  | nil =>
    rw [List.mapM_nil] at h
    obtain ⟨rfl, -⟩ := pure_eq_ok_iff.1 h
    exact nofun
  | cons a l ih =>
    rw [List.mapM_cons] at h
    obtain ⟨b, u, hb, h⟩ := bind_eq_ok_iff.1 h
    obtain ⟨bs', v, hbs, h⟩ := bind_eq_ok_iff.1 h
    obtain ⟨rfl, rfl⟩ := pure_eq_ok_iff.1 h
    exact List.forall_mem_cons.2 ⟨hf hb, ih hbs⟩

/-- What every step of a loop keeps holds in the end. -/
theorem foldlM_invariant {f : β → α → EStateM ε σ β} {I : β → Prop}
    (step : ∀ {b a s b' t}, I b → f b a s = .ok b' t → I b') {l : List α} {b b' : β} {s t : σ}
    (hb : I b) (h : l.foldlM f b s = .ok b' t) : I b' := by
  induction l generalizing b s with
  | nil =>
    obtain ⟨rfl, -⟩ := pure_eq_ok_iff.1 h
    exact hb
  | cons a l ih =>
    rw [List.foldlM_cons] at h
    obtain ⟨b₁, u, h₁, h⟩ := bind_eq_ok_iff.1 h
    exact ih (step hb h₁) h

end TypeSynthesis
