import TypeSynthesis.Proofs.Registry.Naming
import Mathlib.Data.List.DropRight

/-!
# The grammar of written type names

A written type name is the name of a registered type, stars, and at most one ampersand.  Blanks at
the ends and around the marks do not count.

* `Spelling`: the parts of a written name, with the full name of the type that it denotes
  (`Spelling.name`) and its rendering (`Spelling.text`);
* `Spelling.Spells`: the texts that consist of the parts and of blanks;
* `Registry.resolve_spelling`: what has a spelling is resolved from the base outwards;
* `Registry.resolve_iff_spelling`: exactly the spellings of registered names are resolved, the type
  has the full name that the spelling stands for, and its rendering is resolved to it again.

Resolution reads a name from its end, and the marks take effect from the base outwards.  So a name
is first split into a base and marks (`exists_split`), and the marks are then applied in the order
in which they are written.
-/

namespace TypeSynthesis

open Text

/-- Whether the character is one of those that may follow the base of a written name. -/
def Text.isMark (c : Char) : Bool := c = '*' || c = '&'

/-- Stars and then at most one ampersand. -/
def Text.marks (stars : Nat) (byRef : Bool) : List Char :=
  List.replicate stars '*' ++ if byRef then ['&'] else []

theorem Text.isMark_of_mem_marks {stars : Nat} {byRef : Bool} {c : Char}
    (h : c ∈ marks stars byRef) : isMark c = true := by
  rcases List.mem_append.1 h with h | h
  · rw [List.eq_of_mem_replicate h]
    rfl
  · split at h
    · rw [List.mem_singleton.1 h]
      rfl
    · cases h

theorem Text.isBlank_of_isMark {c : Char} (h : isMark c = true) : isBlank c = false := by
  simp only [isMark, Bool.or_eq_true, decide_eq_true_eq] at h
  rcases h with rfl | rfl <;> decide

/-- The parts of a written type name: its base, the number of stars, and whether an ampersand
follows them. -/
structure Spelling where
  base : String
  stars : Nat
  byRef : Bool
  deriving DecidableEq, Repr, Inhabited

namespace Spelling

/-- The marks that follow the base. -/
def marks (w : Spelling) : List Char := Text.marks w.stars w.byRef

/-- The full name of the type that is denoted, by value or by reference. -/
def name (w : Spelling) : String := w.base ++ String.ofList (List.replicate w.stars '*')

/-- The spelling without blanks. -/
def text (w : Spelling) : String := w.base ++ String.ofList w.marks

/-- How the type is passed. -/
def passing (w : Spelling) : Passing := if w.byRef then .byRef else .byValue

theorem text_eq (w : Spelling) : w.text = w.name ++ w.passing.suffix := by
  unfold text name marks Text.marks passing
  rw [String.ofList_append, String.append_assoc]
  cases w.byRef <;> rfl

/-- A text without blanks at its ends that does not end in a mark. -/
def Bare (text : String) : Prop :=
  (∀ c ∈ text.toList.head?, isBlank c = false) ∧
  ∀ c ∈ text.toList.getLast?, isBlank c = false ∧ isMark c = false

instance (text : String) : Decidable (Bare text) :=
  decidable_of_iff (text.toList.head?.all (!isBlank ·) = true ∧
      text.toList.getLast?.all (fun c => !isBlank c && !isMark c) = true) (by
    simp only [Bare, Option.all_eq_true, Bool.and_eq_true, Bool.not_eq_true', Option.mem_def])

/-- The text is the base, which is bare, and the marks, with blanks before and between them. -/
def Spells (w : Spelling) (text : String) : Prop :=
  Bare w.base ∧ ∃ lead tail : List Char, text.toList = lead ++ w.base.toList ++ tail ∧
    (∀ c ∈ lead, isBlank c = true) ∧ tail.filter (fun c => !isBlank c) = w.marks

/-- Only the blanks before a bare text are dropped from it. -/
theorem Bare.dropBlanks_append {text : String} {lead : List Char} (bare : Bare text)
    (blank : ∀ c ∈ lead, isBlank c = true) : dropBlanks (lead ++ text.toList) = text.toList := by
  unfold dropBlanks
  rw [List.dropWhile_append_of_pos blank]
  cases h : text.toList with
  | nil => rfl
  | cons c cs => exact dropBlanks_cons_of_not_blank (bare.1 c (by rw [h]; rfl)) cs

end Spelling

/-- The rendering of a spelling has no blanks, and spells it. -/
theorem Spelling.spells_text {w : Spelling} (bare : Bare w.base) : w.Spells w.text := by
  refine ⟨bare, [], w.marks, by simp [text], nofun, ?_⟩
  exact List.filter_eq_self.2 fun c hc => by rw [isBlank_of_isMark (isMark_of_mem_marks hc)]; rfl

namespace Registry

variable {R S : Registry} {t : TypeRef} {u : TypeId} {base text : String} {w : Spelling}

/-! ### Marks from the base outwards -/

/-- The effect of a mark on what precedes it. -/
def mark (x : Option TypeRef × Registry) (c : Char) : Option TypeRef × Registry :=
  if c = '&' then referenceTo x else starOf x

theorem resolveReversed_of_blank {c : Char} (blank : isBlank c = true) (R : Registry)
    (cs : List Char) : R.resolveReversed (c :: cs) = R.resolveReversed cs := by
  rw [resolveReversed, if_pos blank]

theorem resolveReversed_of_isMark {c : Char} (h : isMark c = true) (R : Registry)
    (cs : List Char) : R.resolveReversed (c :: cs) = mark (R.resolveReversed cs) c := by
  rw [resolveReversed, if_neg (Bool.eq_false_iff.1 (isBlank_of_isMark h))]
  simp only [isMark, Bool.or_eq_true, decide_eq_true_eq] at h
  rcases h with rfl | rfl <;> rfl

/-- Blanks and marks at the end of a name take effect in the order in which they are written. -/
theorem resolveReversed_append (R : Registry) (rest : List Char) {tail : List Char}
    (h : ∀ c ∈ tail, isBlank c = true ∨ isMark c = true) :
    R.resolveReversed (tail.reverse ++ rest) =
      (tail.filter fun c => !isBlank c).foldl mark (R.resolveReversed rest) := by
  induction tail using List.reverseRecOn with
  | nil => rfl
  | append_singleton tail c ih =>
    have inner := ih fun d hd => h d (List.mem_append_left _ hd)
    rw [List.reverse_concat, List.cons_append, List.filter_append, List.foldl_append, ← inner,
      List.filter_singleton]
    rcases h c (List.mem_append_right _ List.mem_cons_self) with blank | isMark
    · rw [resolveReversed_of_blank blank, blank]
      rfl
    · rw [resolveReversed_of_isMark isMark, isBlank_of_isMark isMark]
      rfl

/-- A bare base is looked up as it is, whatever blanks precede it. -/
theorem resolveReversed_base (R : Registry) {lead : List Char} (bare : Spelling.Bare base)
    (blank : ∀ c ∈ lead, isBlank c = true) :
    R.resolveReversed (lead ++ base.toList).reverse =
      ((R.names.get? base).map TypeRef.value, R) := by
  rcases List.eq_nil_or_concat' base.toList with empty | ⟨cs, c, hc⟩
  · rw [empty, List.append_nil, ← List.append_nil lead.reverse,
      R.resolveReversed_append [] fun c hc => .inl (blank c hc), List.filter_eq_nil_iff.2]
    · rw [String.toList_eq_nil_iff.1 empty]
      rfl
    · exact fun c hc => by simp [blank c hc]
  · obtain ⟨noBlank, noMark⟩ := bare.2 c (by rw [hc]; exact List.getLast?_concat ..)
    have order : (lead ++ base.toList).reverse = c :: (lead ++ cs).reverse := by
      rw [hc, ← List.append_assoc, List.reverse_concat]
    simp only [isMark, Bool.or_eq_false_iff, decide_eq_false_iff_not] at noMark
    rw [order, resolveReversed, if_neg (Bool.eq_false_iff.1 noBlank), if_neg noMark.2,
      if_neg noMark.1, ← order, List.reverse_reverse, bare.dropBlanks_append blank,
      String.ofList_toList]

/-- A name in its parts is resolved from the base outwards. -/
theorem resolve_parts (R : Registry) {lead tail : List Char} (bare : Spelling.Bare base)
    (parts : text.toList = lead ++ base.toList ++ tail) (blank : ∀ c ∈ lead, isBlank c = true)
    (marks : ∀ c ∈ tail, isBlank c = true ∨ isMark c = true) :
    R.resolve text =
      (tail.filter fun c => !isBlank c).foldl mark ((R.names.get? base).map TypeRef.value, R) := by
  unfold resolve
  rw [parts, List.reverse_append, R.resolveReversed_append _ marks,
    R.resolveReversed_base bare blank]

/-- What has a spelling is resolved from the base outwards. -/
theorem resolve_spelling (R : Registry) (h : w.Spells text) :
    R.resolve text = w.marks.foldl mark ((R.names.get? w.base).map TypeRef.value, R) := by
  obtain ⟨bare, lead, tail, parts, blank, marks⟩ := h
  rw [R.resolve_parts bare parts blank, marks]
  intro c hc
  refine (Bool.eq_false_or_eq_true (isBlank c)).imp id fun noBlank => ?_
  refine isMark_of_mem_marks (?_ : c ∈ w.marks)
  rw [← marks]
  exact List.mem_filter.2 ⟨hc, by rw [noBlank]; rfl⟩

/-! ### What is accepted -/

/-- Every text consists of blanks, a bare base, and marks with blanks. -/
theorem exists_split (cs : List Char) :
    ∃ lead base tail : List Char, cs = lead ++ base ++ tail ∧ Spelling.Bare (String.ofList base) ∧
      (∀ c ∈ lead, isBlank c = true) ∧ ∀ c ∈ tail, isBlank c = true ∨ isMark c = true := by
  induction cs using List.reverseRecOn with
  | nil => exact ⟨[], [], [], rfl, ⟨nofun, nofun⟩, nofun, nofun⟩
  | append_singleton cs c ih =>
    by_cases behind : isBlank c = true ∨ isMark c = true
    · obtain ⟨lead, base, tail, rfl, bare, blank, marks⟩ := ih
      refine ⟨lead, base, tail ++ [c], by rw [List.append_assoc], bare, blank, fun d hd => ?_⟩
      rcases List.mem_append.1 hd with hd | hd
      · exact marks d hd
      · rwa [List.mem_singleton.1 hd]
    · obtain ⟨noBlank, noMark⟩ := not_or.1 behind
      have kept : dropBlanks (cs ++ [c]) = dropBlanks cs ++ [c] := by
        unfold dropBlanks
        rw [List.dropWhile_append, List.dropWhile_cons_of_neg noBlank]
        split <;> simp_all
      refine ⟨(cs ++ [c]).takeWhile isBlank, dropBlanks cs ++ [c], [], ?_, ⟨?_, ?_⟩, ?_, nofun⟩
      · rw [← kept, List.append_nil]
        exact (List.takeWhile_append_dropWhile ..).symm
      · intro d hd
        have first := List.head?_dropWhile_not isBlank (cs ++ [c])
        rw [String.toList_ofList, ← kept] at hd
        rwa [show ((cs ++ [c]).dropWhile isBlank).head? = some d from hd] at first
      · intro d hd
        rw [String.toList_ofList, List.getLast?_concat] at hd
        cases hd
        exact ⟨Bool.eq_false_iff.2 noBlank, Bool.eq_false_iff.2 noMark⟩
      · exact fun d hd => List.mem_takeWhile_imp hd

/-- Marks are refused after an ampersand and where nothing is denoted, and register nothing. -/
theorem foldl_mark_refused (c : Char) (cs : List Char) {x : Option TypeRef × Registry}
    (h : ∀ t, x.1 = some t → t.isByRef = true) : (c :: cs).foldl mark x = (none, x.2) := by
  have none_left (d : Char) (R : Registry) : mark (none, R) d = (none, R) := by
    unfold mark
    split <;> rfl
  have first : mark x c = (none, x.2) := by
    rcases x with ⟨_ | t, R⟩
    · rw [none_left]
    · have byRef := h t rfl
      unfold mark referenceTo starOf
      split <;> dsimp only <;> rw [if_pos byRef]
  rw [List.foldl_cons, first]
  induction cs with
  | nil => rfl
  | cons d cs ih => rw [List.foldl_cons, none_left, ih]

/-- Stars and then at most one ampersand are what a type by value admits. -/
theorem isSome_foldl_mark {cs : List Char} (marks : ∀ c ∈ cs, isMark c = true) (u : TypeId)
    (R : Registry) :
    (cs.foldl mark (some (.value u), R)).1.isSome = true ↔
      ∃ stars byRef, cs = Text.marks stars byRef := by
  induction cs generalizing u R with
  | nil => exact ⟨fun _ => ⟨0, false, rfl⟩, fun _ => rfl⟩
  | cons c cs ih =>
    have rest (u : TypeId) (R : Registry) :=
      ih (fun d hd => marks d (List.mem_cons_of_mem _ hd)) u R
    have first := marks c List.mem_cons_self
    simp only [isMark, Bool.or_eq_true, decide_eq_true_eq] at first
    rcases first with rfl | rfl
    · have step : mark (some (.value u), R) '*' =
        (some (.value (R.pointerTo u).1), (R.pointerTo u).2) := rfl
      rw [List.foldl_cons, step, rest]
      constructor
      · rintro ⟨k, b, rfl⟩
        exact ⟨k + 1, b, rfl⟩
      · rintro ⟨_ | k, b, h⟩
        · cases b <;> cases h
        · exact ⟨k, b, (List.cons.inj h).2⟩
    · cases cs with
      | nil => exact ⟨fun _ => ⟨0, true, rfl⟩, fun _ => rfl⟩
      | cons d cs =>
        have step : mark (some (.value u), R) '&' = (some (.reference u), R) := rfl
        rw [List.foldl_cons, step, foldl_mark_refused d cs (by rintro t ⟨⟩; rfl)]
        constructor
        · intro found
          cases found
        · rintro ⟨_ | k, b, h⟩
          · cases b <;> cases h
          · exact absurd (List.cons.inj h).1 (by decide)

/-- The spellings of registered names are exactly what is resolved. -/
theorem isSome_resolve_iff (R : Registry) (text : String) :
    (R.resolve text).1.isSome = true ↔
      ∃ w : Spelling, w.Spells text ∧ R.containsName w.base = true := by
  constructor
  · intro found
    obtain ⟨lead, base, tail, parts, bare, blank, marks⟩ := exists_split text.toList
    rw [R.resolve_parts bare (by rw [parts, String.toList_ofList]) blank marks] at found
    generalize hcs : tail.filter (fun c => !isBlank c) = cs at found
    have onlyMarks : ∀ c ∈ cs, isMark c = true := by
      intro c hc
      rw [← hcs] at hc
      obtain ⟨hc, noBlank⟩ := List.mem_filter.1 hc
      exact (marks c hc).resolve_left (by simpa using noBlank)
    cases listed : R.names.get? (String.ofList base) with
    | none =>
      rw [listed] at found
      cases cs with
      | nil => cases found
      | cons c cs =>
        rw [foldl_mark_refused c cs fun _ h => by cases h] at found
        cases found
    | some u =>
      rw [listed] at found
      obtain ⟨stars, byRef, shape⟩ := (isSome_foldl_mark onlyMarks u R).1 found
      exact ⟨⟨String.ofList base, stars, byRef⟩,
        ⟨bare, lead, tail, by rw [parts, String.toList_ofList], blank, hcs.trans shape⟩,
        containsName_eq_true_iff.2 ⟨u, listed⟩⟩
  · rintro ⟨w, spells, taken⟩
    obtain ⟨u, listed⟩ := containsName_eq_true_iff.1 taken
    rw [R.resolve_spelling spells, listed]
    exact (isSome_foldl_mark (fun c => isMark_of_mem_marks) u R).2 ⟨w.stars, w.byRef, rfl⟩

/-! ### What is denoted -/

theorem typeName_of_listed (sound : R.Sound) (distinct : R.Distinct) {name : String}
    (listed : R.names.get? name = some u) : R.typeName u = name := by
  obtain ⟨e, he, rfl⟩ := ((sound.indexed distinct).inverse name u).1 listed
  unfold typeName
  rw [he]

/-- Stars lead from a registered name to the type whose name has these stars.  The name of a
pointer type is made of the name of its pointee, so the induction carries this name along. -/
theorem foldl_stars (sound : R.Sound) (named : R.WellNamed) (listed : R.names.get? base = some u)
    (stars : Nat) :
    ∃ v S, (List.replicate stars '*').foldl mark (some (.value u), R) = (some (.value v), S) ∧
      R.Provides S ∧
      (S.Distinct → S.names.get? (base ++ String.ofList (List.replicate stars '*')) = some v) := by
  induction stars with
  | zero => exact ⟨u, R, rfl, .refl, fun _ => by simpa using listed⟩
  | succ k ih =>
    obtain ⟨v, S, run, provides, ih⟩ := ih
    let p : PointerType := ⟨S.typeName v, v⟩
    have provided : S.Provides (S.provide (.pointerType p)) := provides_provide _ rfl
    refine ⟨p.id, S.provide (.pointerType p), ?_, provides.trans provided, fun distinct => ?_⟩
    · rw [List.replicate_succ', List.foldl_concat, run]
      rfl
    · have sound' := sound.of_grows provides.grows
      have before := distinct.of_grows provided.grows
      have pointee : p.name = base ++ String.ofList (List.replicate (k + 1) '*') := by
        show S.typeName v ++ "*" = _
        rw [typeName_of_listed sound' before (ih before), List.replicate_succ',
          String.ofList_append, String.append_assoc]
      rw [← pointee]
      exact names_get?_provide_pointer sound' distinct
        (named.of_provides (provides.trans provided))

/-- The marks of a spelling lead to the type with its full name, passed as it says. -/
theorem resolve_eq_some_of_spells (sound : R.Sound) (named : R.WellNamed) (spells : w.Spells text)
    (h : R.resolve text = (some t, S)) (distinct : S.Distinct) :
    S.names.get? w.name = some t.id ∧ t.passing = w.passing := by
  rw [R.resolve_spelling spells] at h
  cases listed : R.names.get? w.base with
  | none =>
    rw [listed] at h
    cases marks : w.marks with
    | nil => rw [marks] at h; cases h
    | cons c cs =>
      have refused := foldl_mark_refused c cs (x := (none, R)) fun _ h => by cases h
      rw [marks] at h
      rw [show (c :: cs).foldl mark (none, R) = (some t, S) from h] at refused
      cases refused
  | some u =>
    obtain ⟨v, S', run, -, denoted⟩ := foldl_stars sound named listed w.stars
    rw [listed, Spelling.marks, Text.marks, List.foldl_append] at h
    rw [show (List.replicate w.stars '*').foldl mark ((some u).map TypeRef.value, R) =
      (some (.value v), S') from run] at h
    unfold Spelling.passing
    split at h <;> rename_i byRef <;> cases h
    · exact ⟨denoted distinct, (if_pos byRef).symm⟩
    · exact ⟨denoted distinct, (if_neg byRef).symm⟩

/-- In a registry that operations build, exactly the spellings of registered names are resolved.
Where this leaves no two names with one identity, the type is the registered one whose full name is
the base with its stars, by reference if there is an ampersand, it is displayed as the spelling
without blanks, and what is displayed is resolved to it again, with no further type registered. -/
theorem resolve_iff_spelling (built : R.Built) (text : String) :
    ((R.resolve text).1.isSome = true ↔
      ∃ w : Spelling, w.Spells text ∧ R.containsName w.base = true) ∧
    ((R.resolve text).2.Distinct → ∀ (w : Spelling) (t : TypeRef) (S : Registry),
      w.Spells text → R.resolve text = (some t, S) →
        (∃ e, S.find? w.name = some e ∧ e.name = w.name ∧ e.id = t.id) ∧
        t.passing = w.passing ∧ S.display t = w.text ∧
        S.resolve (S.display t) = (some t, S)) := by
  refine ⟨R.isSome_resolve_iff text, fun distinct w t S spells found => ?_⟩
  rw [found] at distinct
  have provides : R.Provides S := by
    have := provides_resolveReversed R text.toList.reverse
    rwa [show R.resolveReversed text.toList.reverse = (some t, S) from found] at this
  have sound' := built.sound.of_grows provides.grows
  obtain ⟨denoted, passed⟩ :=
    resolve_eq_some_of_spells built.sound built.wellNamed spells found distinct
  obtain ⟨e, he, name⟩ := ((sound'.indexed distinct).inverse _ _).1 denoted
  have rendered : S.display t = w.text := by
    unfold display
    rw [typeName_of_listed sound' distinct denoted, passed, Spelling.text_eq]
  refine ⟨⟨e, ?_, name, sound'.filed he⟩, passed, rendered, ?_⟩
  · unfold find?
    rw [denoted]
    exact he
  · have again : R.resolve w.text = (some t, S) := by
      rw [R.resolve_spelling (Spelling.spells_text spells.1), ← R.resolve_spelling spells, found]
    rw [rendered]
    exact resolve_again built.sound again .refl distinct (built.wellNamed.of_provides provides)

theorem resolve_iff_spelling_host : host.Built ∧
    ∃ t S, host.resolve " int * *\t& " = (some t, S) ∧ S.Distinct ∧ S.display t = "int**&" ∧
      S.resolve "int**&" = (some t, S) := by
  have built : host.Built := built_of_mem_starts (by simp)
  let w : Spelling := ⟨"int", 2, true⟩
  have spells : w.Spells " int * *\t& " :=
    ⟨by decide +kernel, [' '], " * *\t& ".toList, by decide +kernel,
      List.forall_mem_singleton.2 rfl, by decide +kernel⟩
  obtain ⟨accepted, denoted⟩ := resolve_iff_spelling built " int * *\t& "
  have found := accepted.2 ⟨w, spells, by decide +kernel⟩
  have distinct : (host.resolve " int * *\t& ").2.Distinct :=
    distinct_of_nodup (by decide +kernel)
  obtain ⟨t, ht⟩ := Option.isSome_iff_exists.1 found
  have resolved : host.resolve " int * *\t& " = (some t, (host.resolve " int * *\t& ").2) :=
    Prod.ext ht rfl
  obtain ⟨-, -, display, again⟩ := denoted distinct w t _ spells resolved
  rw [display] at again
  exact ⟨built, t, _, resolved, distinct, display, again⟩

/-- A class that shares its identity with the eighth pointer type over it. -/
def selfDisplacing : Operation := .finishClass { name := "GydjxdtzNe>l;Q0+" }

/-- Whether the rendering of what a text denotes, if anything, is resolved to it again. -/
def keepsRendering (R : Registry) (text : String) : Bool :=
  match R.resolve text with
  | (some t, S) => decide (S.resolve (S.display t) = (some t, S))
  | (none, _) => true

/-- Where the last of several pointer types displaces the type that they are over, its rendering
denotes another type. -/
theorem not_resolve_iff_spelling :
    ¬ ∀ (R : Registry) (text : String) (w : Spelling) (t : TypeRef) (S : Registry), R.Built →
      R.Indexed → w.Spells text → R.resolve text = (some t, S) →
      S.resolve (S.display t) = (some t, S) := by
  intro h
  let R := selfDisplacing.after empty
  let w : Spelling := ⟨"GydjxdtzNe>l;Q0+", 8, false⟩
  have built : R.Built := ⟨empty, by simp, [selfDisplacing], by decide, rfl⟩
  have indexed : R.Indexed :=
    built.sound.indexed (distinct_of_nodup (by decide +kernel))
  have spells : w.Spells w.text := Spelling.spells_text (by decide +kernel)
  have other : keepsRendering R w.text = false := by decide +kernel
  unfold keepsRendering at other
  split at other
  · rename_i t S found
    exact of_decide_eq_false other (h R w.text w t S built indexed spells found)
  · cases other

end Registry

end TypeSynthesis
