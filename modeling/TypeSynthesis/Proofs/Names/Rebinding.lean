import TypeSynthesis.Proofs.Names.Basic

/-!
# Bindings that are made again

When the bindings of a `let` are made, those are made again whose type is not the one in view.  No
name changes its type by this, but a name that is bound several times may be left with an earlier
binding of its last type.

* `Scope.bindEach`, `Scope.rebindEach`: the scope after bindings are made, and made again;
* `get?_bindEach`, `get?_rebindEach`: what they leave in view under a name depends on its own
  bindings alone;
* `typeOf?_rebindEach`: the type of a name stays as it was;
* `KeepsLast`, `get?_rebindEach_of_keepsLast`: where the last binding stays in view;
* `get?_rebindEach_eq_iff`: of bindings at different places, it stays in view nowhere else.
-/

namespace TypeSynthesis

/-! ### Bindings -/

/-- The binding that a form of a `let` introduces. -/
def LetBinding.binding (b : LetBinding) : Binding := ⟨b.type?.getD .object, .letBound, b.span⟩

namespace Scope

/-- The scope after bindings are made in order. -/
def bindEach (here : Scope) (bs : List LetBinding) : Scope :=
  bs.foldl (fun here b => here.bind b.name b.binding) here

/-- Make a binding, unless its type is in view. -/
def rebind (here : Scope) (b : LetBinding) : Scope :=
  if here.typeOf? b.name = some b.binding.type then here else here.bind b.name b.binding

/-- The scope after those bindings are made whose type is not in view. -/
def rebindEach (here : Scope) (bs : List LetBinding) : Scope := bs.foldl rebind here

end Scope

/-- The bindings of a name. -/
def ownBindings (name : String) (bs : List LetBinding) : List LetBinding :=
  bs.filter (·.name == name)

/-- The binding in view after one is made. -/
def Binding.replace (_ : Option Binding) (b : LetBinding) : Option Binding := some b.binding

/-- The binding in view after one is made unless its type is in view. -/
def Binding.retake (shown? : Option Binding) (b : LetBinding) : Option Binding :=
  if shown?.map Binding.type = some b.binding.type then shown? else some b.binding

section View

variable {here there : Scope} {bs : List LetBinding} {name : String}

/-- What is done to a name depends on the bindings of this name alone. -/
theorem get?_foldl {step : Scope → LetBinding → Scope}
    {view : Option Binding → LetBinding → Option Binding}
    (own : ∀ here b, (step here b).get? b.name = view (here.get? b.name) b)
    (other : ∀ here b, name ≠ b.name → (step here b).get? name = here.get? name) :
    (bs.foldl step here).get? name = (ownBindings name bs).foldl view (here.get? name) := by
  unfold ownBindings
  induction bs generalizing here with
  | nil => rfl
  | cons b bs ih =>
    rw [List.foldl_cons, ih]
    by_cases same : b.name = name
    · subst same
      rw [own]
      simp only [List.filter_cons, beq_self_eq_true, if_true, List.foldl_cons]
    · have rest : (b.name == name) = false := beq_eq_false_iff_ne.2 same
      rw [other here b (Ne.symm same)]
      simp only [List.filter_cons, rest, Bool.false_eq_true, if_false]

theorem get?_bindEach : (here.bindEach bs).get? name =
    (ownBindings name bs).foldl Binding.replace (here.get? name) :=
  get?_foldl (fun here b => by rw [Scope.get?_bind, if_pos rfl, Binding.replace])
    fun here b differ => by rw [Scope.get?_bind, if_neg differ]

theorem get?_rebindEach : (here.rebindEach bs).get? name =
    (ownBindings name bs).foldl Binding.retake (here.get? name) := by
  refine get?_foldl (fun here b => ?_) fun here b differ => ?_
  · unfold Scope.rebind Binding.retake Scope.typeOf?
    split
    · rfl
    · rw [Scope.get?_bind, if_pos rfl]
  · unfold Scope.rebind
    split
    · rfl
    · rw [Scope.get?_bind, if_neg differ]

end View

/-- The last binding of a name is the one in view after the bindings are made again: unless the
binding before it is of the same type, and an earlier one of another. -/
def KeepsLast (name : String) (bs : List LetBinding) : Prop :=
  ∀ before b last, ownBindings name bs = before ++ [b, last] → b.type? = last.type? →
    ∀ c ∈ before, c.type? = last.type?

/-- A name keeps its last binding if the one before it is of another type. -/
theorem keepsLast_of_ne {name : String} {bs : List LetBinding} {b last : LetBinding}
    (before : List LetBinding) (own : ownBindings name bs = before ++ [b, last])
    (differ : b.type? ≠ last.type?) : KeepsLast name bs := by
  intro before' b' last' own' same
  obtain ⟨-, two⟩ := List.append_inj' (own.symm.trans own') rfl
  cases two
  exact absurd same differ

namespace Binding

variable {shown? : Option Binding} {bs : List LetBinding} {b : LetBinding}

theorem type_retake (shown? : Option Binding) (b : LetBinding) :
    (retake shown? b).map Binding.type = some b.binding.type := by
  unfold retake
  split
  · assumption
  · rfl

theorem retake_of_eq (same : shown?.map Binding.type = some b.binding.type) :
    retake shown? b = shown? := if_pos same

theorem retake_of_ne (differ : shown?.map Binding.type ≠ some b.binding.type) :
    retake shown? b = some b.binding := if_neg differ

theorem foldl_retake_of_eq (same : ∀ b ∈ bs, shown?.map Binding.type = some b.binding.type) :
    bs.foldl retake shown? = shown? := by
  induction bs with
  | nil => rfl
  | cons b bs ih =>
    obtain ⟨first, rest⟩ := List.forall_mem_cons.1 same
    rw [List.foldl_cons, retake_of_eq first]
    exact ih rest

/-- Where some binding is not of the type in view, one of the bindings is in view in the end. -/
theorem exists_of_foldl_retake (differ : ∃ b ∈ bs, shown?.map Binding.type ≠ some b.binding.type) :
    ∃ b ∈ bs, bs.foldl retake shown? = some b.binding := by
  induction bs generalizing shown? with
  | nil =>
    obtain ⟨b, hb, -⟩ := differ
    cases hb
  | cons b bs ih =>
    rw [List.foldl_cons]
    by_cases same : shown?.map Binding.type = some b.binding.type
    · rw [retake_of_eq same]
      obtain ⟨c, hc, differ⟩ := differ
      have later : c ∈ bs := (List.mem_cons.1 hc).resolve_left fun eq => differ (eq ▸ same)
      obtain ⟨d, hd, view⟩ := ih ⟨c, later, differ⟩
      exact ⟨d, List.mem_cons_of_mem _ hd, view⟩
    · rw [retake_of_ne same]
      by_cases others : ∃ c ∈ bs, (some b.binding).map Binding.type ≠ some c.binding.type
      · obtain ⟨d, hd, view⟩ := ih others
        exact ⟨d, List.mem_cons_of_mem _ hd, view⟩
      · push Not at others
        exact ⟨b, List.mem_cons_self, foldl_retake_of_eq others⟩

theorem foldl_replace_append (shown? : Option Binding) (bs : List LetBinding) (b : LetBinding) :
    (bs ++ [b]).foldl replace shown? = some b.binding := by
  rw [List.foldl_append]
  rfl

theorem foldl_retake_append (shown? : Option Binding) (bs : List LetBinding) (b : LetBinding) :
    (bs ++ [b]).foldl retake shown? = retake (bs.foldl retake shown?) b := by
  rw [List.foldl_append]
  rfl

end Binding

/-- Every binding has a type. -/
abbrev LetBinding.Typed (bs : List LetBinding) : Prop := ∀ b ∈ bs, b.type?.isSome = true

theorem LetBinding.type_binding {b : LetBinding} (h : b.type?.isSome = true) :
    some b.binding.type = b.type? := by
  obtain ⟨t, ht⟩ := Option.isSome_iff_exists.1 h
  unfold LetBinding.binding
  rw [ht]
  rfl

/-- The last of some bindings stays in view while all of them are made again, unless the one before
it is of its type and an earlier one is not. -/
theorem Binding.foldl_retake_last {before : List LetBinding} {last : LetBinding}
    (typed : LetBinding.Typed (before ++ [last]))
    (keeps : ∀ before' b, before = before' ++ [b] → b.type? = last.type? →
      ∀ c ∈ before', c.type? = last.type?) :
    (before ++ [last]).foldl retake (some last.binding) = some last.binding := by
  have type {c : LetBinding} (hc : c ∈ before ++ [last]) : some c.binding.type = c.type? :=
    LetBinding.type_binding (typed c hc)
  have hlast : some last.binding.type = last.type? := type List.mem_concat_self
  rw [foldl_retake_append]
  rcases List.eq_nil_or_concat' before with rfl | ⟨before', b, rfl⟩
  · exact retake_of_eq rfl
  have hb : some b.binding.type = b.type? := type (List.mem_append_left _ List.mem_concat_self)
  by_cases same : b.type? = last.type?
  · -- all of the bindings are of one type, and none is made again
    have all : ∀ c ∈ before' ++ [b], some last.binding.type = some c.binding.type := by
      intro c hc
      rw [hlast, type (List.mem_append_left _ hc)]
      rcases List.mem_append.1 hc with hc | hc
      · exact (keeps before' b rfl same c hc).symm
      · rw [List.mem_singleton.1 hc, same]
    rw [foldl_retake_of_eq all]
    exact retake_of_eq rfl
  · -- the binding before is of another type, so that the last one is made again
    apply retake_of_ne
    rw [foldl_retake_append, type_retake, hb, hlast]
    exact same

section View

variable {here there : Scope} {bs : List LetBinding} {name : String}

/-- Making bindings again leaves the type of every name in view as it is. -/
theorem typeOf?_rebindEach (here : Scope) (bs : List LetBinding) (name : String) :
    ((here.bindEach bs).rebindEach bs).typeOf? name = (here.bindEach bs).typeOf? name := by
  unfold Scope.typeOf?
  rw [get?_rebindEach, get?_bindEach]
  rcases List.eq_nil_or_concat' (ownBindings name bs) with own | ⟨before, last, own⟩
  · rw [own]
    rfl
  · rw [own, Binding.foldl_replace_append, Binding.foldl_retake_append, Binding.type_retake]
    rfl

/-- Making bindings again leaves a name as it is, if its last binding stays in view. -/
theorem get?_rebindEach_of_keepsLast (typed : LetBinding.Typed bs) (keeps : KeepsLast name bs) :
    ((here.bindEach bs).rebindEach bs).get? name = (here.bindEach bs).get? name := by
  rw [get?_rebindEach, get?_bindEach]
  rcases List.eq_nil_or_concat' (ownBindings name bs) with own | ⟨before, last, own⟩
  · rw [own]
    rfl
  · rw [own, Binding.foldl_replace_append]
    refine Binding.foldl_retake_last (fun c hc => ?_) fun before' b eq => ?_
    · exact typed c (List.mem_of_mem_filter (own ▸ hc))
    · exact keeps before' b last (by rw [own, eq, List.append_assoc]; rfl)

/-- If the bindings of a name are at different places, making bindings again leaves the name as it
is only if its last binding stays in view. -/
theorem get?_rebindEach_eq_iff (typed : LetBinding.Typed bs)
    (apart : (ownBindings name bs).Pairwise (·.span ≠ ·.span)) :
    ((here.bindEach bs).rebindEach bs).get? name = (here.bindEach bs).get? name ↔
      KeepsLast name bs := by
  refine ⟨fun same before b last own equal c hc => ?_, get?_rebindEach_of_keepsLast typed⟩
  by_contra differ
  replace own : ownBindings name bs = before ++ [b] ++ [last] := by rw [own, List.append_assoc]; rfl
  have type {d : LetBinding} (hd : d ∈ before ++ [b] ++ [last]) :
      some d.binding.type = d.type? :=
    LetBinding.type_binding (typed d (List.mem_of_mem_filter (own ▸ hd)))
  have inside : c ∈ before ++ [b] := List.mem_append_left _ hc
  have lastType := type List.mem_concat_self
  -- the view has changed at the earlier binding, and the last one does not change it again
  have changed : (some last.binding).map Binding.type ≠ some c.binding.type := by
    rw [type (List.mem_append_left _ inside)]
    exact fun eq => differ (eq.symm.trans lastType)
  obtain ⟨d, hd, view⟩ := Binding.exists_of_foldl_retake ⟨c, inside, changed⟩
  have settled : ((before ++ [b]).foldl Binding.retake (some last.binding)).map Binding.type =
      some last.binding.type := by
    rw [Binding.foldl_retake_append, Binding.type_retake,
      type (List.mem_append_left _ List.mem_concat_self), equal, lastType]
  rw [get?_rebindEach, get?_bindEach, own, Binding.foldl_replace_append,
    Binding.foldl_retake_append, Binding.retake_of_eq settled, view] at same
  have place : d.span = last.span := congrArg (fun b => b.site.span) (Option.some.inj same)
  rw [own] at apart
  exact (List.pairwise_append.1 apart).2.2 d hd last (List.mem_singleton_self last) place

end View

end TypeSynthesis
