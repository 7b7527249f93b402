import TypeSynthesis.Proofs.Registry.Grammar

/-!
# Written names that denote nothing

A text that is no type name is rejected.  Resolution reads it from the base outwards, and registers
the pointer types that it meets before it comes to the mark that cannot stand where it is.

* `Spelling.Begins`: the longest beginning of a text that is a type name, and the marks after it;
* `Registry.resolve_begins`: the marks after it take effect on what the beginning denotes;
* `Registry.resolve_eq_none`: a rejected text registers what its beginning registers, and nothing
  unless stars and an ampersand are followed by further marks.

The first mark that cannot stand where it is comes after an ampersand, since any number of stars may
follow a base and each other.
-/

namespace TypeSynthesis

open Text

/-- Marks are stars, at most one ampersand, and what may not follow it. -/
theorem Text.exists_marks_append {cs : List Char} (h : ∀ c ∈ cs, isMark c = true) :
    ∃ stars byRef rest, cs = marks stars byRef ++ rest ∧ (rest = [] ∨ byRef = true) := by
  induction cs with
  | nil => exact ⟨0, false, [], rfl, .inl rfl⟩
  | cons c cs ih =>
    have first := h c List.mem_cons_self
    simp only [isMark, Bool.or_eq_true, decide_eq_true_eq] at first
    rcases first with rfl | rfl
    · obtain ⟨stars, byRef, rest, rfl, last⟩ := ih fun d hd => h d (List.mem_cons_of_mem _ hd)
      exact ⟨stars + 1, byRef, rest, rfl, last⟩
    · exact ⟨0, true, cs, rfl, .inr rfl⟩

/-- The text starts with the base and the marks of the spelling, and the marks `rest` follow.
Blanks at the ends and around the marks do not count. -/
def Spelling.Begins (w : Spelling) (rest : List Char) (text : String) : Prop :=
  Bare w.base ∧ ∃ lead tail : List Char, text.toList = lead ++ w.base.toList ++ tail ∧
    (∀ c ∈ lead, isBlank c = true) ∧ (∀ c ∈ tail, isBlank c = true ∨ isMark c = true) ∧
    tail.filter (fun c => !isBlank c) = w.marks ++ rest

/-- Every text starts with a spelling, which is the whole of it or ends in an ampersand. -/
theorem Spelling.exists_begins (text : String) :
    ∃ (w : Spelling) (rest : List Char), w.Begins rest text ∧ (rest = [] ∨ w.byRef = true) := by
  obtain ⟨lead, base, tail, parts, bare, blank, marks⟩ := Registry.exists_split text.toList
  have onlyMarks : ∀ c ∈ tail.filter (fun c => !isBlank c), isMark c = true := by
    intro c hc
    obtain ⟨hc, noBlank⟩ := List.mem_filter.1 hc
    exact (marks c hc).resolve_left (by simpa using noBlank)
  obtain ⟨stars, byRef, rest, shape, last⟩ := exists_marks_append onlyMarks
  exact ⟨⟨String.ofList base, stars, byRef⟩, rest,
    ⟨bare, lead, tail, by rw [parts, String.toList_ofList], blank, marks, shape⟩, last⟩

namespace Registry

variable {R : Registry} {w : Spelling} {rest : List Char} {text : String}

/-- The marks that follow take effect on what the beginning denotes. -/
theorem resolve_begins (R : Registry) (h : w.Begins rest text) :
    R.resolve text = rest.foldl mark (R.resolve w.text) := by
  obtain ⟨bare, lead, tail, parts, blank, marks, shape⟩ := h
  rw [R.resolve_parts bare parts blank marks, shape, List.foldl_append,
    R.resolve_spelling (Spelling.spells_text bare)]

/-- A spelling of a name that is not registered registers nothing. -/
theorem resolve_of_not_listed (bare : Spelling.Bare w.base)
    (unlisted : R.containsName w.base = false) : R.resolve w.text = (none, R) := by
  rw [R.resolve_spelling (Spelling.spells_text bare), containsName_eq_false_iff.1 unlisted]
  cases w.marks with
  | nil => rfl
  | cons c cs => exact foldl_mark_refused c cs (by intro t ht; cases ht)

/-- A spelling without stars registers nothing. -/
theorem snd_resolve_of_no_stars (bare : Spelling.Bare w.base) (none : w.stars = 0) :
    (R.resolve w.text).2 = R := by
  rw [R.resolve_spelling (Spelling.spells_text bare), Spelling.marks, none]
  cases w.byRef with
  | false => rfl
  | true => exact snd_referenceTo _

/-- What a spelling with an ampersand denotes is by reference, so that no mark may follow. -/
theorem isByRef_of_resolve (bare : Spelling.Bare w.base) (byRef : w.byRef = true) :
    ∀ t, (R.resolve w.text).1 = some t → t.isByRef = true := by
  intro t ht
  rw [R.resolve_spelling (Spelling.spells_text bare), Spelling.marks, Text.marks, byRef, if_pos rfl,
    List.foldl_concat] at ht
  obtain ⟨u, -, -, rfl⟩ := referenceTo_eq_some (Prod.ext ht rfl)
  rfl

/-- A text that denotes nothing leaves the registry as it is, unless it starts with the name of a
registered type, stars and an ampersand, and further marks follow.  Then it leaves the registry as
this beginning does, which is a type name: with the pointer types that the stars name. -/
theorem resolve_eq_none (h : (R.resolve text).1 = none) :
    (R.resolve text).2 = R ∨
    ∃ (w : Spelling) (rest : List Char), w.Begins rest text ∧ rest ≠ [] ∧
      R.containsName w.base = true ∧ 0 < w.stars ∧ w.byRef = true ∧
      (R.resolve w.text).1.isSome = true ∧ (R.resolve text).2 = (R.resolve w.text).2 := by
  obtain ⟨w, rest, begins, last⟩ := Spelling.exists_begins text
  have bare := begins.1
  have whole := R.resolve_begins begins
  cases listed : R.containsName w.base with
  | false =>
    left
    rw [whole, resolve_of_not_listed bare listed]
    cases rest with
    | nil => rfl
    | cons c cs => rw [foldl_mark_refused c cs (by intro t ht; cases ht)]
  | true =>
    have denoted : (R.resolve w.text).1.isSome = true :=
      (R.isSome_resolve_iff _).2 ⟨w, Spelling.spells_text bare, listed⟩
    cases rest with
    | nil =>
      rw [whole] at h
      rw [show (R.resolve w.text).1 = none from h] at denoted
      cases denoted
    | cons c cs =>
      have byRef : w.byRef = true := last.resolve_left (List.cons_ne_nil c cs)
      rw [foldl_mark_refused c cs (isByRef_of_resolve bare byRef)] at whole
      rw [whole]
      by_cases stars : w.stars = 0
      · exact .inl (snd_resolve_of_no_stars bare stars)
      · exact .inr ⟨w, c :: cs, begins, List.cons_ne_nil c cs, listed,
          Nat.pos_of_ne_zero stars, byRef, denoted, rfl⟩

/-- A star after a reference to a pointer type: the pointer type stays. -/
theorem resolve_eq_none_starredReference :
    (host.resolve "int * & *").1 = none ∧ (host.resolve "int * & *").2 ≠ host ∧
    ∃ (w : Spelling) (rest : List Char), w.Begins rest "int * & *" ∧ rest ≠ [] ∧
      host.containsName w.base = true ∧ 0 < w.stars ∧ w.byRef = true ∧
      (host.resolve w.text).1.isSome = true ∧
      (host.resolve "int * & *").2 = (host.resolve w.text).2 := by
  have rejected : (host.resolve "int * & *").1 = none := by decide +kernel
  have grown : (host.resolve "int * & *").2 ≠ host := by decide +kernel
  exact ⟨rejected, grown, (resolve_eq_none rejected).resolve_left grown⟩

/-- A rejected text may register a type. -/
theorem not_resolve_eq_self :
    ¬ ∀ (R : Registry) (text : String), (R.resolve text).1 = none → (R.resolve text).2 = R := by
  intro h
  have rejected : (host.resolve "int*&*").1 = none := by decide +kernel
  have grown : (host.resolve "int*&*").2 ≠ host := by decide +kernel
  exact grown (h host _ rejected)

end Registry

end TypeSynthesis
