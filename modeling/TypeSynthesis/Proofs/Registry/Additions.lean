import TypeSynthesis.Proofs.Registry.Grammar
import TypeSynthesis.Proofs.Registry.Instantiation

/-!
# The names that operations take

Six kinds of operations give names to new types: a definition is registered or finalized, a
primitive is provided, a pointer type is registered on its own or where a written name mentions it,
an invoker is asked for, or a generic definition is instantiated.

* `Registry.Stars`: in a written name, a star gives the name to a pointer type;
* `Operation.Gives`: the operation gives the name to a new type, with one case for each kind;
* `Operation.gives_iff`: exactly these operations take a name that is free.
-/

namespace TypeSynthesis

open Registry Text

namespace Registry

variable {R S : Registry} {name : String} {cs : List Char} {e : Entry}

/-! ### Single types -/

theorem containsName_provideAll_iff {es : List Entry} :
    (R.provideAll es).containsName name = true ↔
      R.containsName name = true ∨ ∃ e ∈ es, e.name = name := by
  induction es generalizing R with
  | nil => simp [provideAll]
  | cons e es ih =>
    show ((R.provide e).provideAll es).containsName name = true ↔ _
    rw [ih, containsName_provide_iff, or_assoc, List.exists_mem_cons_iff]

/-- A type that is registered under a free name takes its own name and no other. -/
theorem containsName_register_iff (registers : R.register e = .ok S)
    (free : R.containsName name = false) : S.containsName name = true ↔ e.name = name := by
  obtain ⟨-, -, rfl⟩ := register_eq_ok_iff.1 registers
  rw [containsName_add, free, Bool.or_false, beq_iff_eq, eq_comm]

/-! ### Written names -/

/-- Among the characters of a written name, in reverse order, is a star that gives the name to the
pointer type over what stands before it, a type by value.  Only blanks and marks follow. -/
inductive Stars (R : Registry) (name : String) : List Char → Prop
  | here {cs : List Char} {t : TypeRef} {S : Registry}
      (denotes : R.resolveReversed cs = (some t, S)) (byValue : t.isByRef = false)
      (named : S.typeName t.id ++ "*" = name) : Stars R name ('*' :: cs)
  | before {c : Char} {cs : List Char} (trailing : isBlank c = true ∨ isMark c = true)
      (rest : Stars R name cs) : Stars R name (c :: cs)

/-- A star takes the name of the pointer type, if what precedes it is a type by value. -/
theorem containsName_starOf_iff {x : Option TypeRef × Registry} :
    (starOf x).2.containsName name = true ↔ x.2.containsName name = true ∨
      ∃ t, x.1 = some t ∧ t.isByRef = false ∧ x.2.typeName t.id ++ "*" = name := by
  rcases x with ⟨_ | t, S⟩
  · simp [starOf]
  · cases byRef : t.isByRef with
    | true => simp [starOf, byRef]
    | false =>
      have pointer : (starOf (some t, S)).2 =
          S.provide (.pointerType ⟨S.typeName t.id, t.id⟩) := by
        simp [starOf, byRef, pointerTo]
      rw [pointer, containsName_provide_iff]
      simp [byRef, Entry.name, PointerType.name]

/-- Neither a blank nor an ampersand registers a type. -/
theorem snd_resolveReversed_of_trailing {c : Char} (trailing : isBlank c = true ∨ isMark c = true)
    (other : c ≠ '*') : (R.resolveReversed (c :: cs)).2 = (R.resolveReversed cs).2 := by
  rcases trailing with blank | marks
  · rw [resolveReversed_of_blank blank]
  · have ampersand : c = '&' := by simpa [isMark, other] using marks
    rw [resolveReversed_of_isMark marks, mark, if_pos ampersand, snd_referenceTo]

/-- Nor does what ends in the name of a type. -/
theorem snd_resolveReversed_of_letter {c : Char}
    (letter : ¬ (isBlank c = true ∨ isMark c = true)) : (R.resolveReversed (c :: cs)).2 = R := by
  obtain ⟨blank, marks⟩ := not_or.1 letter
  simp only [isMark, Bool.or_eq_true, decide_eq_true_eq, not_or] at marks
  rw [resolveReversed, if_neg blank, if_neg marks.2, if_neg marks.1]

/-- Reading a name takes the names of the pointer types that its stars stand for. -/
theorem containsName_resolveReversed_iff (free : R.containsName name = false) :
    (R.resolveReversed cs).2.containsName name = true ↔ R.Stars name cs := by
  induction cs with
  | nil =>
    refine iff_of_false (fun taken => ?_) nofun
    exact Bool.false_ne_true (free.symm.trans taken)
  | cons c cs ih =>
    by_cases star : c = '*'
    · subst star
      have read : R.resolveReversed ('*' :: cs) = starOf (R.resolveReversed cs) :=
        resolveReversed_of_isMark rfl R cs
      rw [read, containsName_starOf_iff, ih]
      constructor
      · rintro (earlier | ⟨t, denotes, byValue, named⟩)
        · exact .before (.inr rfl) earlier
        · exact .here (Prod.ext denotes rfl) byValue named
      · rintro (⟨denotes, byValue, named⟩ | ⟨-, earlier⟩)
        · exact .inr ⟨_, congrArg Prod.fst denotes, byValue, by rw [denotes]; exact named⟩
        · exact .inl earlier
    · have behind : R.Stars name (c :: cs) ↔
          (isBlank c = true ∨ isMark c = true) ∧ R.Stars name cs := by
        constructor
        · rintro (_ | ⟨trailing, earlier⟩)
          · exact absurd rfl star
          · exact ⟨trailing, earlier⟩
        · exact fun h => .before h.1 h.2
      rw [behind, ← ih]
      by_cases trailing : isBlank c = true ∨ isMark c = true
      · rw [snd_resolveReversed_of_trailing trailing star, and_iff_right trailing]
      · rw [snd_resolveReversed_of_letter trailing, free]
        exact iff_of_false nofun fun h => trailing h.1

end Registry

/-! ### Operations -/

/-- The operation gives the name, which was free, to a new type. -/
inductive Operation.Gives (R : Registry) (name : String) : Operation → Prop
  | register {e : Entry} {S : Registry} (accepted : R.register e = .ok S) (named : e.name = name) :
      Gives R name (.register e)
  | finishClass {c : ClassType} {S : Registry} (accepted : R.register (.classType c) = .ok S)
      (named : c.name = name) : Gives R name (.finishClass c)
  | finishInterface {i : InterfaceType} {S : Registry}
      (accepted : R.register (.interfaceType i) = .ok S) (named : i.name = name) :
      Gives R name (.finishInterface i)
  | primitive {p : Primitive} (free : R.containsName name = false) (named : p.name = name) :
      Gives R name .providePrimitives
  | pointer {t : TypeId} (free : R.containsName name = false)
      (named : R.typeName t ++ "*" = name) : Gives R name (.pointerTo t)
  | mention {text : String} (free : R.containsName name = false)
      (stars : R.Stars name text.toList.reverse) : Gives R name (.resolve text)
  | invoker {n : Nat} {S : Registry}
      (accepted : R.register (.interfaceType (invokerType n)) = .ok S)
      (named : invokerName n = name) : Gives R name (.invoker n)
  | instance_ {t : TypeId} {args : List TypeRef} {i : InterfaceType} {s : Substitution}
      {S : Registry} (definition : R.interface? t = some i) (generic : i.isGeneric = true)
      (pairs : substitutionOf i.name i.typeParams args = .ok s)
      (accepted : R.register (.interfaceType (R.instanceAt i t args s)) = .ok S)
      (named : i.name ++ "<" ++ R.displayAll args ++ ">" = name) :
      Gives R name (.instantiate t args)

namespace Operation

variable {R : Registry} {name : String} {o : Operation} {e : Entry} {S : Registry}

theorem after_of_ok (h : o.run R = .ok S) : o.after R = S := by
  unfold after
  rw [h]

/-- A registration takes the name of the type. -/
theorem after_of_register (h : o.run R = .ok S) (accepted : R.register e = .ok S)
    (named : e.name = name) :
    R.containsName name = false ∧ (o.after R).containsName name = true := by
  obtain ⟨free, -, -⟩ := register_eq_ok_iff.1 accepted
  rw [named] at free
  rw [after_of_ok h]
  exact ⟨free, (containsName_register_iff accepted free).2 named⟩

theorem run_invoker {n : Nat} (accepted : R.register (.interfaceType (invokerType n)) = .ok S) :
    (invoker n).run R = .ok S := by
  obtain ⟨free, -, -⟩ := register_eq_ok_iff.1 accepted
  have free : R.containsName (invokerName n) = false := free
  have made : R.invoker n = .ok ((invokerType n).id, S) := by
    unfold Registry.invoker find?
    rw [containsName_eq_false_iff.1 free]
    dsimp only [Option.bind_none]
    rw [accepted]
    rfl
  unfold run
  dsimp only
  rw [made]
  rfl

theorem run_instantiate {t : TypeId} {args : List TypeRef} {i : InterfaceType} {s : Substitution}
    (definition : R.interface? t = some i) (generic : i.isGeneric = true)
    (pairs : substitutionOf i.name i.typeParams args = .ok s)
    (accepted : R.register (.interfaceType (R.instanceAt i t args s)) = .ok S) :
    (instantiate t args).run R = .ok S := by
  obtain ⟨-, unused, -⟩ := register_eq_ok_iff.1 accepted
  have unused : R.contains (.ofInstance t (args.map (·.id))) = false := unused
  have made : R.instantiate t args = .ok (.ofInstance t (args.map (·.id)), S) := by
    unfold Registry.instantiate
    rw [definition]
    dsimp only
    rw [if_pos generic, pairs]
    dsimp only [bind, Except.bind]
    rw [if_neg (Bool.eq_false_iff.1 unused), accepted]
    rfl
  unfold run
  dsimp only
  rw [made]
  rfl

/-- An operation that gives a name takes it. -/
theorem Gives.taken (h : o.Gives R name) :
    R.containsName name = false ∧ (o.after R).containsName name = true := by
  cases h with
  | register accepted named => exact after_of_register accepted accepted named
  | finishClass accepted named => exact after_of_register accepted accepted named
  | finishInterface accepted named => exact after_of_register accepted accepted named
  | @primitive p free named =>
    refine ⟨free, containsName_provideAll_iff.2 (.inr ⟨.primitive p, ?_, named⟩)⟩
    exact List.mem_map_of_mem (Primitive.mem_all p)
  | pointer free named => exact ⟨free, containsName_provide_iff.2 (.inr named)⟩
  | mention free stars => exact ⟨free, (containsName_resolveReversed_iff free).2 stars⟩
  | invoker accepted named => exact after_of_register (run_invoker accepted) accepted named
  | instance_ definition generic pairs accepted named =>
    exact after_of_register (run_instantiate definition generic pairs accepted) accepted named

/-- One case for each operation: a name that was free and is taken is that of a new type. -/
theorem gives_of_taken (free : R.containsName name = false)
    (taken : (o.after R).containsName name = true) : o.Gives R name := by
  have same {S : Registry} (h : S = R) (hS : S.containsName name = true) : o.Gives R name := by
    rw [h, free] at hS
    cases hS
  unfold after at taken
  cases h : o.run R with
  | error e => exact same rfl (by rwa [h] at taken)
  | ok S =>
    replace taken : S.containsName name = true := by rwa [h] at taken
    cases o with
    | register e => exact .register h ((containsName_register_iff h free).1 taken)
    | finishClass c => exact .finishClass h ((containsName_register_iff h free).1 taken)
    | finishInterface i => exact .finishInterface h ((containsName_register_iff h free).1 taken)
    | providePrimitives =>
      rw [← Except.ok.inj h] at taken
      rcases containsName_provideAll_iff.1 taken with old | ⟨e, he, named⟩
      · exact same rfl old
      · obtain ⟨p, -, rfl⟩ := List.mem_map.1 he
        exact .primitive free named
    | pointerTo t =>
      rw [← Except.ok.inj h] at taken
      rcases containsName_provide_iff.1 taken with old | named
      · exact same rfl old
      · exact .pointer free named
    | resolve text =>
      rw [← Except.ok.inj h] at taken
      exact .mention free ((containsName_resolveReversed_iff free).1 taken)
    | invoker n =>
      obtain ⟨⟨t, S'⟩, asked, h⟩ := except_bind_eq_ok_iff.1 h
      cases h
      rcases register_of_invoker asked with old | registers
      · exact same old taken
      · exact .invoker registers ((containsName_register_iff registers free).1 taken)
    | instantiate t args =>
      obtain ⟨⟨u, S'⟩, made, h⟩ := except_bind_eq_ok_iff.1 h
      cases h
      obtain ⟨-, i, s, definition, generic, pairs, ⟨-, old⟩ | registers⟩ :=
        instantiate_cases made
      · exact same old taken
      · exact .instance_ definition generic pairs registers
          ((containsName_register_iff registers free).1 taken)
    | beginClass =>
      obtain ⟨c, -, h⟩ := except_bind_eq_ok_iff.1 h
      cases h
      exact same rfl taken
    | beginInterface =>
      obtain ⟨c, -, h⟩ := except_bind_eq_ok_iff.1 h
      cases h
      exact same rfl taken

/-- A name that is free is taken by exactly the operations that give it to a new type. -/
theorem gives_iff : o.Gives R name ↔
    R.containsName name = false ∧ (o.after R).containsName name = true :=
  ⟨Gives.taken, fun h => gives_of_taken h.1 h.2⟩

end Operation

end TypeSynthesis
