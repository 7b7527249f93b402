import Mathlib.Data.List.Perm.Basic
import TypeSynthesis.Closure

/-!
# Merged captures

What the union of capture sets holds under each name.

* `Capture.strongest`: of captures of one name, those that a merge chooses from;
* `CaptureSet.get?_merge`: the first of them is merged, unless it is the object's reference to
  itself;
* `CaptureSet.HoldsOther`, `CaptureSet.SelfLeads`, `CaptureSet.Disputed`: what the sets hold under
  the object's own name;
* `CaptureSet.contains_merge`: which names are merged, and when the order of the sets matters.

One capture is chosen for each name before the object's reference to itself is dropped.  Where that
reference is chosen under the object's own name, an outer binding of the name is lost.
-/

namespace TypeSynthesis

/-! ### Captures of one name -/

namespace Capture

/-- Whether this is the reference to itself of the object that calls itself `selfName`. -/
def isSelf (c : Capture) (selfName : String) : Bool := c.isObjectSelf && c.name == selfName

/-- Of two captures in order, the first, unless only the second is resolved. -/
def stronger (d c : Capture) : Capture := if d.isResolved || !c.isResolved then d else c

/-- The captures of a list that count: the resolved ones, if there are any. -/
def strongest (cs : List Capture) : List Capture :=
  if cs.any isResolved then cs.filter isResolved else cs

variable {c d : Capture} {cs ds : List Capture} {selfName : String}

theorem isSelf_of_name_eq (h : c.name = selfName) : c.isSelf selfName = c.isObjectSelf := by
  unfold isSelf
  rw [h, beq_self_eq_true, Bool.and_true]

theorem isSelf_of_name_ne (h : c.name ≠ selfName) : c.isSelf selfName = false := by
  unfold isSelf
  rw [beq_false_of_ne h, Bool.and_false]

/-- The first capture that counts is the first resolved one, or the first of all. -/
theorem head?_strongest (cs : List Capture) :
    (strongest cs).head? = (cs.find? isResolved).or cs.head? := by
  unfold strongest
  split
  · rename_i resolved
    obtain ⟨c, hc⟩ := Option.isSome_iff_exists.1 (List.find?_isSome.2 (List.any_eq_true.1 resolved))
    rw [List.head?_filter, hc, Option.some_or]
  · rename_i none
    rw [List.any_eq_true] at none
    rw [List.find?_eq_none.2 fun c hc resolved => none ⟨c, hc, resolved⟩, Option.none_or]

theorem mem_strongest_iff :
    c ∈ strongest cs ↔ c ∈ cs ∧ (c.isResolved = true ∨ ∀ d ∈ cs, d.isResolved = false) := by
  unfold strongest
  split
  · rename_i resolved
    obtain ⟨e, he, hresolved⟩ := List.any_eq_true.1 resolved
    rw [List.mem_filter]
    refine and_congr_right fun _ => ⟨.inl, fun h => h.resolve_right fun none => ?_⟩
    rw [none e he] at hresolved
    cases hresolved
  · rename_i none
    refine ⟨fun hc => ⟨hc, .inr fun d hd => ?_⟩, And.left⟩
    exact Bool.eq_false_iff.2 fun resolved => none (List.any_eq_true.2 ⟨d, hd, resolved⟩)

theorem mem_of_head?_strongest (h : (strongest cs).head? = some c) : c ∈ cs :=
  (mem_strongest_iff.1 (List.mem_of_head? h)).1

/-- Where there are captures, some count. -/
theorem exists_head?_strongest (h : c ∈ cs) : ∃ d, (strongest cs).head? = some d := by
  rw [head?_strongest]
  cases cs with
  | nil => cases h
  | cons e cs =>
    cases (e :: cs).find? isResolved with
    | none => exact ⟨e, rfl⟩
    | some d => exact ⟨d, rfl⟩

/-- The first capture that counts is resolved if any is. -/
theorem isResolved_of_head?_strongest (h : (strongest cs).head? = some c) :
    c.isResolved = true ↔ ∃ d ∈ cs, d.isResolved = true := by
  obtain ⟨mem, counts⟩ := mem_strongest_iff.1 (List.mem_of_head? h)
  refine ⟨fun resolved => ⟨c, mem, resolved⟩, fun ⟨d, hd, resolved⟩ => ?_⟩
  refine counts.resolve_right fun none => ?_
  rw [none d hd] at resolved
  cases resolved

/-- Which captures count does not depend on their order. -/
theorem mem_strongest_perm (h : cs.Perm ds) : c ∈ strongest cs ↔ c ∈ strongest ds := by
  simp only [mem_strongest_iff, h.mem_iff]

/-- What counts among captures is the first that counts where it stands in front. -/
theorem head?_strongest_cons (h : cs.Perm (c :: ds)) (counts : c ∈ strongest cs) :
    (strongest (c :: ds)).head? = some c := by
  rw [head?_strongest]
  rcases (mem_strongest_iff.1 ((mem_strongest_perm h).1 counts)).2 with resolved | none
  · rw [List.find?_cons_of_pos resolved, Option.some_or]
  · rw [List.find?_eq_none.2 fun d hd => Bool.eq_false_iff.1 (none d hd)]
    rfl

end Capture

namespace CaptureSet

open Capture

variable {sets sets' : List CaptureSet} {selfName name : String} {c : Capture}

/-! ### What a merge holds -/

/-- The captures of a name in capture sets, in order. -/
def records (sets : List CaptureSet) (name : String) : List Capture :=
  (sets.flatMap toList).filter (·.name == name)

theorem mem_records_iff : c ∈ records sets name ↔ ∃ s ∈ sets, s.get? name = some c := by
  unfold records
  simp only [List.mem_filter, List.mem_flatMap, beq_iff_eq, get?_eq_some_iff]
  constructor
  · rintro ⟨⟨s, hs, hc⟩, same⟩
    exact ⟨s, hs, hc, same⟩
  · rintro ⟨s, hs, hc, same⟩
    exact ⟨⟨s, hs, hc⟩, same⟩

theorem name_of_mem_records (h : c ∈ records sets name) : c.name = name := by
  obtain ⟨s, -, hc⟩ := mem_records_iff.1 h
  exact (get?_eq_some_iff.1 hc).2

theorem records_perm (h : sets.Perm sets') (name : String) :
    (records sets name).Perm (records sets' name) :=
  (h.flatMap_right toList).filter _

/-- What is kept under a name where a capture of that name is added. -/
def keep (old? : Option Capture) (c : Capture) : Option Capture := some (old?.elim c (·.stronger c))

theorem get?_join (s : CaptureSet) (c : Capture) (name : String) :
    (s.join c).get? name = if name = c.name then keep (s.get? name) c else s.get? name := by
  have inserted := get?_insert s c name
  unfold join keep
  by_cases same : name = c.name
  · rw [if_pos same] at inserted ⊢
    rw [same] at inserted ⊢
    cases h : s.get? c.name with
    | none => exact inserted
    | some d =>
      show (if _ then s else s.insert c).get? c.name = some (d.stronger c)
      unfold stronger
      split
      · exact h
      · exact inserted
  · rw [if_neg same] at inserted ⊢
    split
    · split
      · rfl
      · exact inserted
    · exact inserted

/-- A fold over all captures is, for one name, the fold over the captures of that name. -/
theorem get?_foldl_join (cs : List Capture) (s : CaptureSet) (name : String) :
    (cs.foldl join s).get? name = (cs.filter (·.name == name)).foldl keep (s.get? name) := by
  induction cs generalizing s with
  | nil => rfl
  | cons c cs ih =>
    rw [List.foldl_cons, ih, get?_join, List.filter_cons]
    by_cases same : name = c.name
    · rw [if_pos same, if_pos (beq_iff_eq.2 same.symm), List.foldl_cons]
    · rw [if_neg same, if_neg (by simpa using Ne.symm same)]

theorem foldl_keep_some (cs : List Capture) (d : Capture) :
    cs.foldl keep (some d) = ((d :: cs).find? isResolved).or (some d) := by
  induction cs generalizing d with
  | nil => cases h : d.isResolved <;> simp [h]
  | cons c cs ih =>
    rw [List.foldl_cons, show keep (some d) c = some (d.stronger c) from rfl, ih]
    unfold stronger
    cases hd : d.isResolved <;> cases hc : c.isResolved <;> simp [hd, hc]

/-- Of the captures of one name the first that counts is kept. -/
theorem foldl_keep (cs : List Capture) : cs.foldl keep none = (strongest cs).head? := by
  rw [head?_strongest]
  cases cs with
  | nil => rfl
  | cons c cs => exact foldl_keep_some cs c

/-- A merge keeps the first capture of a name that counts, unless it is the object's reference to
itself. -/
theorem get?_merge (sets : List CaptureSet) (selfName name : String) :
    (merge sets selfName).get? name =
      (strongest (records sets name)).head?.filter fun c => !c.isSelf selfName := by
  unfold merge
  rw [get?_filter, get?_foldl_join]
  exact congrArg (Option.filter _) (foldl_keep _)

/-- Under another name than the object's own, the first capture that counts is kept. -/
theorem get?_merge_of_ne (h : name ≠ selfName) :
    (merge sets selfName).get? name = (strongest (records sets name)).head? := by
  rw [get?_merge]
  cases hc : (strongest (records sets name)).head? with
  | none => rfl
  | some c =>
    have named : c.name = name := name_of_mem_records (mem_of_head?_strongest hc)
    rw [Option.filter_some, isSelf_of_name_ne (named ▸ h)]
    rfl

/-! ### Which names are merged -/

/-- Some set holds a capture of the name that is not the object's reference to itself. -/
def HoldsOther (sets : List CaptureSet) (selfName name : String) : Prop :=
  ∃ s ∈ sets, ∃ c ∈ s.toList, c.name = name ∧ c.isSelf selfName = false

instance : Decidable (HoldsOther sets selfName name) :=
  inferInstanceAs (Decidable (∃ s ∈ sets, ∃ c ∈ s.toList, _ ∧ _))

/-- Of the captures of its name that count, the object's reference to itself comes first. -/
def SelfLeads (sets : List CaptureSet) (selfName : String) : Prop :=
  (strongest (records sets selfName)).head?.any isObjectSelf = true

instance : Decidable (SelfLeads sets selfName) := inferInstanceAs (Decidable (_ = true))

/-- Among the captures of its name that count, there are the object's reference to itself and an
outer binding. -/
def Disputed (sets : List CaptureSet) (selfName : String) : Prop :=
  (∃ c ∈ strongest (records sets selfName), c.isObjectSelf = true) ∧
    ∃ c ∈ strongest (records sets selfName), c.isObjectSelf = false

instance : Decidable (Disputed sets selfName) := inferInstanceAs (Decidable (_ ∧ _))

theorem holdsOther_iff :
    HoldsOther sets selfName name ↔ ∃ c ∈ records sets name, c.isSelf selfName = false := by
  unfold HoldsOther
  simp only [mem_records_iff, get?_eq_some_iff]
  constructor
  · rintro ⟨s, hs, c, hc, same, other⟩
    exact ⟨c, ⟨s, hs, hc, same⟩, other⟩
  · rintro ⟨c, ⟨s, hs, hc, same⟩, other⟩
    exact ⟨s, hs, c, hc, same, other⟩

theorem holdsOther_of_ne (h : name ≠ selfName) :
    HoldsOther sets selfName name ↔ ∃ s ∈ sets, s.contains name = true := by
  unfold HoldsOther contains
  simp only [Option.isSome_iff_exists, get?_eq_some_iff]
  refine exists_congr fun s => and_congr_right fun _ => exists_congr fun c => ?_
  refine and_congr_right fun _ => and_iff_left_of_imp fun named => ?_
  exact isSelf_of_name_ne (named ▸ h)

/-- A name other than the object's own is merged if some set captures it. -/
theorem contains_merge_of_ne (h : name ≠ selfName) :
    (merge sets selfName).contains name = true ↔ ∃ s ∈ sets, s.contains name = true := by
  unfold contains
  simp only [get?_merge_of_ne h, Option.isSome_iff_exists]
  constructor
  · rintro ⟨c, hc⟩
    obtain ⟨s, hs, hc⟩ := mem_records_iff.1 (mem_of_head?_strongest hc)
    exact ⟨s, hs, c, hc⟩
  · rintro ⟨s, hs, c, hc⟩
    exact exists_head?_strongest (mem_records_iff.2 ⟨s, hs, hc⟩)

/-- The object's own name is merged if the first capture of it that counts is an outer binding. -/
theorem contains_merge_self : (merge sets selfName).contains selfName = true ↔
    ∃ c, (strongest (records sets selfName)).head? = some c ∧ c.isObjectSelf = false := by
  unfold contains
  rw [get?_merge, Option.isSome_iff_exists]
  simp only [Option.filter_eq_some_iff, Bool.not_eq_true']
  refine exists_congr fun c => and_congr_right fun hc => ?_
  rw [isSelf_of_name_eq (name_of_mem_records (mem_of_head?_strongest hc))]

theorem contains_merge_self_iff : (merge sets selfName).contains selfName = true ↔
    HoldsOther sets selfName selfName ∧ ¬ SelfLeads sets selfName := by
  rw [contains_merge_self, holdsOther_iff]
  unfold SelfLeads
  constructor
  · rintro ⟨c, hc, outer⟩
    have mem := mem_of_head?_strongest hc
    refine ⟨⟨c, mem, (isSelf_of_name_eq (name_of_mem_records mem)).trans outer⟩, ?_⟩
    rw [hc, Option.any_some, outer]
    exact Bool.false_ne_true
  · rintro ⟨⟨c, hc, -⟩, outer⟩
    obtain ⟨d, hd⟩ := exists_head?_strongest hc
    rw [hd, Option.any_some] at outer
    exact ⟨d, hd, Bool.eq_false_iff.2 outer⟩

/-! ### The order of the sets -/

theorem mem_strongest_records_perm (h : sets.Perm sets') :
    c ∈ strongest (records sets name) ↔ c ∈ strongest (records sets' name) :=
  mem_strongest_perm (records_perm h name)

theorem disputed_perm (h : sets.Perm sets') : Disputed sets selfName ↔ Disputed sets' selfName := by
  unfold Disputed
  simp only [mem_strongest_records_perm h]

/-- Each capture that counts comes first if the sets are ordered suitably. -/
theorem exists_perm_head? (counts : c ∈ strongest (records sets name)) :
    ∃ sets', sets.Perm sets' ∧ (strongest (records sets' name)).head? = some c := by
  obtain ⟨s, hs, hc⟩ := mem_records_iff.1 (mem_strongest_iff.1 counts).1
  obtain ⟨before, after, rfl⟩ := List.append_of_mem hs
  have perm : (before ++ s :: after).Perm (s :: (before ++ after)) := List.perm_middle
  refine ⟨s :: (before ++ after), perm, ?_⟩
  obtain ⟨rest, front⟩ : ∃ rest, records (s :: (before ++ after)) name = c :: rest := by
    have first : (s.toList.filter (·.name == name)).head? = some c := List.head?_filter.trans hc
    obtain ⟨own, hown⟩ := List.head?_eq_some_iff.1 first
    unfold records
    rw [List.flatMap_cons, List.filter_append, hown]
    exact ⟨_, rfl⟩
  have records_perm := records_perm perm name
  rw [front] at records_perm ⊢
  exact head?_strongest_cons records_perm counts

/-- Unless the object's reference to itself stands against an outer binding, the object's own name
is merged if any outer binding counts. -/
theorem contains_merge_self_of_not_disputed (h : ¬ Disputed sets selfName) :
    (merge sets selfName).contains selfName = true ↔
      ∃ c ∈ strongest (records sets selfName), c.isObjectSelf = false := by
  rw [contains_merge_self]
  constructor
  · rintro ⟨c, hc, outer⟩
    exact ⟨c, List.mem_of_head? hc, outer⟩
  · rintro ⟨c, hc, outer⟩
    obtain ⟨d, hd⟩ := exists_head?_strongest (mem_strongest_iff.1 hc).1
    refine ⟨d, hd, Bool.eq_false_iff.2 fun own => h ?_⟩
    exact ⟨⟨d, List.mem_of_head? hd, own⟩, c, hc, outer⟩

/-- The merged names do not depend on the order of the sets if and only if no outer binding of the
object's own name stands against the object's reference to itself. -/
theorem contains_merge_perm_iff :
    (∀ sets', sets.Perm sets' → ∀ name,
      (merge sets' selfName).contains name = (merge sets selfName).contains name) ↔
    ¬ Disputed sets selfName := by
  constructor
  · -- With the own reference in front the name is lost, with the outer binding in front it is not.
    rintro same ⟨⟨c, hc, own⟩, d, hd, outer⟩
    obtain ⟨first, perm, hfirst⟩ := exists_perm_head? hc
    obtain ⟨second, perm', hsecond⟩ := exists_perm_head? hd
    have kept : (merge first selfName).contains selfName = true := by
      rw [same first perm, ← same second perm']
      exact contains_merge_self.2 ⟨d, hsecond, outer⟩
    obtain ⟨e, he, outer'⟩ := contains_merge_self.1 kept
    rw [hfirst] at he
    cases he
    rw [own] at outer'
    cases outer'
  · intro undisputed sets' perm name
    rw [Bool.eq_iff_iff]
    by_cases self : name = selfName
    · subst self
      rw [contains_merge_self_of_not_disputed undisputed,
        contains_merge_self_of_not_disputed (mt (disputed_perm perm).2 undisputed)]
      simp only [mem_strongest_records_perm perm]
    · rw [contains_merge_of_ne self, contains_merge_of_ne self]
      simp only [perm.mem_iff]

/-- Every name is merged under which some set holds more than the object's reference to itself, but
for the object's own name where that reference leads.  The order of the sets matters only for the
object's own name, and only where that reference and an outer binding both count. -/
theorem contains_merge (sets : List CaptureSet) (selfName : String) :
    (∀ name, (merge sets selfName).contains name = true ↔
      HoldsOther sets selfName name ∧ (name = selfName → ¬ SelfLeads sets selfName)) ∧
    ((∀ sets', sets.Perm sets' → ∀ name,
      (merge sets' selfName).contains name = (merge sets selfName).contains name) ↔
      ¬ Disputed sets selfName) := by
  refine ⟨fun name => ?_, contains_merge_perm_iff⟩
  by_cases self : name = selfName
  · subst self
    rw [contains_merge_self_iff, imp_iff_right rfl]
  · rw [contains_merge_of_ne self, holdsOther_of_ne self,
      and_iff_left fun same => absurd same self]

/-- Two methods capture a binding named `this`: one of them the object itself, the other the
binding around it. -/
def sharedName : List CaptureSet :=
  [.ofList [{ name := "this", role := .objectSelf }, { name := "x", role := .letBound }],
    .ofList [{ name := "this", role := .letBound }]]

/-- The same where the type of the binding around the object is known. -/
def sharedTypedName : List CaptureSet :=
  [.ofList [{ name := "this", role := .objectSelf }, { name := "x", role := .letBound }],
    .ofList [{ name := "this", role := .letBound, type? := some .object }]]

/-- A binding of known type is kept beside the object's reference to itself, in each order. -/
theorem contains_merge_sharedTypedName : ∀ sets', sharedTypedName.Perm sets' →
    (merge sets' "this").contains "this" = true ∧ (merge sets' "this").contains "x" = true := by
  obtain ⟨merged, ordered⟩ := contains_merge sharedTypedName "this"
  have same := ordered.2 (by decide +kernel)
  intro sets' perm
  rw [same sets' perm, same sets' perm]
  exact ⟨(merged "this").2 (by decide +kernel), (merged "x").2 (by decide +kernel)⟩

/-- A binding around the object is lost if the object's reference to itself comes before it. -/
theorem not_contains_merge :
    ¬ ∀ (sets : List CaptureSet) (selfName name : String),
      (merge sets selfName).contains name = true ↔ HoldsOther sets selfName name := by
  intro h
  have kept := (h sharedName "this" "this").2 (by decide +kernel)
  have lost : (merge sharedName "this").contains "this" = false := by decide +kernel
  rw [lost] at kept
  cases kept

end CaptureSet

end TypeSynthesis
