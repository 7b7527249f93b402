import TypeSynthesis.Proofs.Registry.Grammar

/-!
# The base of a written name

A written name is read with a full name in place of its base, where this is a short name.

* `Text.base`, `Text.suffix`: a written name without its blanks and marks, and what follows it;
* `Text.expand`: the written name with a full name in place of a short one;
* `Registry.resolve_bare`: a name that is its own base is looked up as it is;
* `Registry.isSome_resolve_of_base`: whether a text is a type name is seen from its base.
-/

namespace TypeSynthesis

open Text

namespace Text

/-- Whether the character may follow the base of a written name. -/
def isTrailing (c : Char) : Bool := isBlank c || isMark c

/-- The base of a written name. -/
def base (text : String) : String := String.ofList (dropBlanks (text.toList.rdropWhile isTrailing))

/-- The blanks and marks that follow the base of a written name. -/
def suffix (text : String) : List Char := text.toList.rtakeWhile isTrailing

/-- A written name with the name `full` in place of its base, where that is the name `short`. -/
def expand (short full text : String) : String :=
  if base text = short then full ++ String.ofList (suffix text) else text

theorem base_of_parts {text base' : String} {lead tail : List Char} (bare : Spelling.Bare base')
    (parts : text.toList = lead ++ base'.toList ++ tail) (blank : ∀ c ∈ lead, isBlank c = true)
    (marks : ∀ c ∈ tail, isBlank c = true ∨ isMark c = true) : base text = base' := by
  have kept : text.toList.rdropWhile isTrailing =
      (lead ++ base'.toList).rdropWhile isTrailing := by
    have trailing : ∀ c ∈ tail.reverse, isTrailing c = true := by
      intro c hc
      exact Bool.or_eq_true_iff.2 (marks c (List.mem_reverse.1 hc))
    unfold List.rdropWhile
    rw [parts, List.reverse_append, List.dropWhile_append_of_pos trailing]
  unfold base
  rw [kept]
  rcases List.eq_nil_or_concat' base'.toList with empty | ⟨cs, c, hc⟩
  · rw [empty, List.append_nil, List.rdropWhile_eq_nil_iff.2]
    · rw [String.toList_eq_nil_iff.1 empty]
      rfl
    · intro c hc
      exact Bool.or_eq_true_iff.2 (.inl (blank c hc))
  · obtain ⟨noBlank, noMark⟩ := bare.2 c (by rw [hc]; exact List.getLast?_concat ..)
    rw [hc, ← List.append_assoc, List.rdropWhile_concat_neg isTrailing _ c
      (by simp [isTrailing, noBlank, noMark]), List.append_assoc, ← hc,
      bare.dropBlanks_append blank, String.ofList_toList]

theorem base_of_spells {w : Spelling} {text : String} (h : w.Spells text) : base text = w.base := by
  obtain ⟨bare, lead, tail, parts, blank, marks⟩ := h
  refine base_of_parts bare parts blank fun c hc => ?_
  cases noBlank : isBlank c with
  | true => exact .inl rfl
  | false =>
    refine .inr (isMark_of_mem_marks (?_ : c ∈ w.marks))
    rw [← marks]
    exact List.mem_filter.2 ⟨hc, by rw [noBlank]; rfl⟩

/-- A bare name is its own base, and nothing follows it. -/
theorem base_of_bare {text : String} (bare : Spelling.Bare text) : base text = text := by
  have parts : text.toList = [] ++ text.toList ++ [] := by simp
  exact base_of_parts bare parts nofun nofun

theorem suffix_of_bare {text : String} (bare : Spelling.Bare text) : suffix text = [] := by
  refine List.rtakeWhile_eq_nil_iff.2 fun nonempty => ?_
  obtain ⟨noBlank, noMark⟩ := bare.2 _ (List.getLast?_eq_some_getLast nonempty)
  simp [isTrailing, noBlank, noMark]

theorem expand_of_base_ne {short full text : String} (h : base text ≠ short) :
    expand short full text = text := if_neg h

/-- The full name and the short name both stand for the full name. -/
theorem expand_of_bare {short full text : String} (bare : Spelling.Bare text)
    (h : text = short ∨ text = full) : expand short full text = full := by
  unfold expand
  rw [base_of_bare bare, suffix_of_bare bare]
  split
  · exact String.append_empty
  · exact h.resolve_left ‹_›

end Text

namespace Registry

variable {R S : Registry} {text : String}

/-- A name that is its own base is looked up as it is. -/
theorem resolve_bare (R : Registry) (bare : Spelling.Bare text) :
    R.resolve text = ((R.names.get? text).map TypeRef.value, R) := by
  have parts : text.toList = [] ++ text.toList ++ [] := by simp
  exact R.resolve_parts bare parts nofun nofun

/-- Whether a text is a type name is seen from its base. -/
theorem isSome_resolve_of_base
    (h : R.containsName (base text) = true → S.containsName (base text) = true)
    (found : (R.resolve text).1.isSome = true) : (S.resolve text).1.isSome = true := by
  obtain ⟨w, spells, listed⟩ := (R.isSome_resolve_iff text).1 found
  rw [base_of_spells spells] at h
  exact (S.isSome_resolve_iff text).2 ⟨w, spells, h listed⟩

end Registry

end TypeSynthesis
