import Mathlib.Data.List.Perm.Basic
import TypeSynthesis.Overload
import TypeSynthesis.Proofs.Hierarchy.Grown

/-!
# Selection among candidates

Selection looks at a list of candidates and at positions in it, and yet its result does not depend
on either: only on what the candidates are and how often each stands in the list.

* `sole?`, `Registry.winners`: the candidates that are at least as specific as each tied one;
* `select?_eq_some_iff`: a signature is selected if it is the sole winner among the best matches
  and, where several tie, no argument is untyped;
* `atMost_antisymm`, `params_eq_of_specific`: candidates that are each as specific as the other
  have the same parameters;
* `select?_perm`, `select?_sublist`: the order of the candidates does not matter, and losing
  candidates can be left out.
-/

namespace TypeSynthesis

/-- The element of a list that has one element only. -/
def sole? {α : Type} : List α → Option α
  | [a] => some a
  | _ => none

theorem sole?_eq_some_iff {α : Type} {l : List α} {a : α} : sole? l = some a ↔ l = [a] := by
  unfold sole?
  split
  · simp
  · rename_i h
    constructor
    · intro h'
      cases h'
    · intro h'
      exact absurd h' (h a)

/-- The elements that stand in a relation to each element are the same in every order. -/
theorem filter_all_perm {α : Type} (q : α → α → Bool) {l l' : List α} (h : l.Perm l') :
    (l.filter fun a => l.all (q a)).Perm (l'.filter fun a => l'.all (q a)) := by
  have same (a : α) : l.all (q a) = l'.all (q a) := by
    rw [Bool.eq_iff_iff, List.all_eq_true, List.all_eq_true]
    exact ⟨fun ha b hb => ha b (h.mem_iff.2 hb), fun ha b hb => ha b (h.mem_iff.1 hb)⟩
  simp only [same]
  exact h.filter _

theorem sublist_filter {α : Type} {p : α → Bool} {l l' : List α} (h : l.Sublist l')
    (hl : ∀ a ∈ l, p a = true) : l.Sublist (l'.filter p) := by
  have := h.filter p
  rwa [List.filter_eq_self.2 hl] at this

/-! ### Best matches -/

section BestMatches

variable {α : Type} {ms ns : List (Match α)} {m n : Match α}

theorem mem_bestMatches_iff : m ∈ bestMatches ms ↔ m ∈ ms ∧ ∀ n ∈ ms, ¬ n.Better m := by
  simp only [bestMatches, List.mem_filter, List.all_eq_true, Bool.not_eq_true',
    decide_eq_false_iff_not]

/-- What no other ranks above is as good as any that no other ranks above. -/
theorem Match.tied (hmn : ¬ m.Better n) (hnm : ¬ n.Better m) :
    m.cost = n.cost ∧ m.exactCount = n.exactCount := by
  unfold Match.Better at hmn hnm
  omega

theorem Match.not_better_of_tied {k : Match α} (hk : ¬ k.Better m)
    (h : m.cost = n.cost ∧ m.exactCount = n.exactCount) : ¬ k.Better n := by
  unfold Match.Better at hk ⊢
  omega

/-- What ties with a best match is one as well. -/
theorem mem_bestMatches_of_tied (hm : m ∈ bestMatches ms) (hn : n ∈ ms)
    (h : m.cost = n.cost ∧ m.exactCount = n.exactCount) : n ∈ bestMatches ms :=
  mem_bestMatches_iff.2
    ⟨hn, fun k hk => Match.not_better_of_tied ((mem_bestMatches_iff.1 hm).2 k hk) h⟩

theorem bestMatches_perm (h : ms.Perm ns) : (bestMatches ms).Perm (bestMatches ns) :=
  filter_all_perm (fun m n : Match α => !decide (n.Better m)) h

/-- Leaving out candidates, but not all of the best ones, leaves best ones only. -/
theorem bestMatches_sublist (h : ns.Sublist ms) (hm : m ∈ bestMatches ms) (hn : m ∈ ns) :
    m ∈ bestMatches ns ∧ (bestMatches ns).Sublist (bestMatches ms) := by
  have hbest : m ∈ bestMatches ns :=
    mem_bestMatches_iff.2 ⟨hn, fun k hk => (mem_bestMatches_iff.1 hm).2 k (h.subset hk)⟩
  have hsub : (bestMatches ns).Sublist ms := List.filter_sublist.trans h
  refine ⟨hbest, sublist_filter hsub fun k hk => ?_⟩
  -- another best one of the shorter list ties with `m`, which is best in the longer one
  have htied := Match.tied ((mem_bestMatches_iff.1 hk).2 m hn)
    ((mem_bestMatches_iff.1 hbest).2 k (mem_bestMatches_iff.1 hk).1)
  exact (List.mem_filter.1 (mem_bestMatches_of_tied hm (hsub.subset hk) htied)).2

/-- What no other ranks above stays in front. -/
theorem bestMatches_cons (h : ∀ n ∈ ms, ¬ n.Better m) :
    ∃ tied, bestMatches (m :: ms) = m :: tied ∧ tied ⊆ ms := by
  have hbest : m ∈ bestMatches (m :: ms) := by
    refine mem_bestMatches_iff.2 ⟨List.mem_cons_self, fun n hn => ?_⟩
    rcases List.mem_cons.1 hn with rfl | hn
    · unfold Match.Better
      omega
    · exact h n hn
  exact ⟨_, List.filter_cons_of_pos (List.mem_filter.1 hbest).2, List.filter_subset_self _⟩

end BestMatches

theorem TypeRef.element_eq {t : TypeRef} (h : t.isByRef = false) : t.element = t := by
  obtain ⟨id, passing⟩ := t
  cases passing <;> first | rfl | cases h

namespace Registry

variable {R : Registry}

/-! ### Specificity -/

theorem atMost_refl (p : TypeRef) : R.atMost p p = true := by
  unfold atMost
  rw [beq_self_eq_true, Bool.true_or]

/-- Between signatures of one arity, specificity is position by position. -/
theorem atLeastAsSpecific_iff {m n : Signature} (h : m.arity = n.arity) :
    R.atLeastAsSpecific m n = true ↔
      List.Forall₂ (fun p q => R.atMost p q = true) m.params n.params := by
  rw [List.forall₂_iff_zip, atLeastAsSpecific, List.all_eq_true]
  constructor
  · intro hz
    exact ⟨h, fun {p q} hpq => hz (p, q) hpq⟩
  · rintro ⟨-, hz⟩ ⟨p, q⟩ hpq
    exact hz hpq

theorem atLeastAsSpecific_refl (m : Signature) : R.atLeastAsSpecific m m = true :=
  (atLeastAsSpecific_iff rfl).2 (List.forall₂_same.2 fun p _ => atMost_refl p)

theorem atMost_antisymm (hR : Layered R) {p q : TypeRef} (hpq : R.atMost p q = true)
    (hqp : R.atMost q p = true) : p = q := by
  simp only [atMost, Bool.or_eq_true, beq_iff_eq, Bool.and_eq_true, Bool.not_eq_true'] at hpq hqp
  rcases hpq with hpq | ⟨⟨hp, hq⟩, hpq⟩
  · exact hpq
  · rcases hqp with hqp | ⟨-, hqp⟩
    · exact hqp.symm
    · rw [← TypeRef.element_eq hp, ← TypeRef.element_eq hq]
      exact congrArg TypeRef.value (hR.isSubtype_antisymm hpq hqp)

/-- Signatures that are each as specific as the other have the same parameters. -/
theorem params_eq_of_specific (hR : Layered R) {m n : Signature} (h : m.arity = n.arity)
    (hmn : R.atLeastAsSpecific m n = true) (hnm : R.atLeastAsSpecific n m = true) :
    m.params = n.params := by
  have hmn := (atLeastAsSpecific_iff h).1 hmn
  have hnm := (atLeastAsSpecific_iff h.symm).1 hnm
  generalize m.params = ps at hmn hnm
  generalize n.params = qs at hmn hnm
  induction hmn with
  | nil => rfl
  | cons hp _ ih =>
    cases hnm with
    | cons hq hqs => rw [atMost_antisymm hR hp hq, ih hqs]

/-! ### Winners -/

/-- The tied candidates that are at least as specific as each tied one. -/
def winners (R : Registry) (tied : List (Match Signature)) : List (Match Signature) :=
  tied.filter fun m => tied.all fun n => R.atLeastAsSpecific m.candidate n.candidate

theorem mem_winners_iff {tied : List (Match Signature)} {m : Match Signature} :
    m ∈ R.winners tied ↔
      m ∈ tied ∧ ∀ n ∈ tied, R.atLeastAsSpecific m.candidate n.candidate = true := by
  rw [winners, List.mem_filter, List.all_eq_true]

theorem of_winners_eq {tied : List (Match Signature)} {w : Match Signature}
    (h : R.winners tied = [w]) :
    w ∈ tied ∧ ∀ n ∈ tied, R.atLeastAsSpecific w.candidate n.candidate = true := by
  rw [← mem_winners_iff, h]
  exact List.mem_singleton_self w

/-- A candidate that is as specific as each other wins alone if none of these is as specific as
it. -/
theorem winners_cons {w : Match Signature} {tied : List (Match Signature)}
    (hwin : ∀ n ∈ tied, R.atLeastAsSpecific w.candidate n.candidate = true)
    (hlose : ∀ n ∈ tied, ¬ R.atLeastAsSpecific n.candidate w.candidate = true) :
    R.winners (w :: tied) = [w] := by
  have hw : w ∈ R.winners (w :: tied) := by
    refine mem_winners_iff.2 ⟨List.mem_cons_self, fun n hn => ?_⟩
    rcases List.mem_cons.1 hn with rfl | hn
    · exact atLeastAsSpecific_refl n.candidate
    · exact hwin n hn
  unfold winners
  rw [List.filter_cons, if_pos (List.mem_filter.1 hw).2, List.filter_eq_nil_iff.2]
  intro n hn hnwin
  exact hlose n hn (List.all_eq_true.1 hnwin w List.mem_cons_self)

/-- A candidate is as specific as itself, so that its own position needs no exception. -/
theorem isMostSpecific_eq {tied : List (Match Signature)} {m : Match Signature} {i : Nat}
    (h : (m, i) ∈ tied.zipIdx) :
    R.isMostSpecific tied i m =
      tied.all fun n => R.atLeastAsSpecific m.candidate n.candidate := by
  rw [Bool.eq_iff_iff, isMostSpecific, List.all_eq_true, List.all_eq_true]
  constructor
  · intro hall n hn
    obtain ⟨j, hj⟩ := List.mem_iff_getElem?.1 hn
    have hn := hall (n, j) (List.mk_mem_zipIdx_iff_getElem?.2 hj)
    by_cases hij : j = i
    · have hm := List.mk_mem_zipIdx_iff_getElem?.1 h
      rw [← hij, hj] at hm
      rw [Option.some.inj hm]
      exact atLeastAsSpecific_refl m.candidate
    · rwa [show (j == i) = false from beq_false_of_ne hij, Bool.false_or] at hn
  · rintro hall ⟨n, j⟩ hn
    rw [hall n (List.fst_mem_of_mem_zipIdx hn), Bool.or_true]

/-- The most specific of tied candidates is the sole winner, whatever its position. -/
theorem mostSpecific?_eq (tied : List (Match Signature)) :
    R.mostSpecific? tied =
      if tied.any Match.hasUntyped then none else sole? (R.winners tied) := by
  let W : Match Signature → Bool := fun m =>
    tied.all fun n => R.atLeastAsSpecific m.candidate n.candidate
  have hfilter : tied.zipIdx.filter (fun p => R.isMostSpecific tied p.2 p.1) =
      tied.zipIdx.filter (W ∘ Prod.fst) :=
    List.filter_congr fun p hp => isMostSpecific_eq hp
  have hwinners : R.winners tied = (tied.zipIdx.filter (W ∘ Prod.fst)).map Prod.fst := by
    rw [← List.filter_map, List.zipIdx_map_fst]
    rfl
  unfold mostSpecific?
  rw [hfilter, hwinners]
  rcases tied.zipIdx.filter (W ∘ Prod.fst) with _ | ⟨p, _ | ⟨q, l⟩⟩ <;> rfl

/-- What is selected is the sole winner among the best matches.  Where several tie, an untyped
argument forbids the choice. -/
theorem select?_eq_some_iff {candidates : List Signature} {args : List TypeRef} {m : Signature} :
    R.select? candidates args = some m ↔
      ∃ w, R.winners (bestMatches (R.applicable candidates args)) = [w] ∧ w.candidate = m ∧
        (bestMatches (R.applicable candidates args) = [w] ∨
          ∀ n ∈ bestMatches (R.applicable candidates args), n.hasUntyped = false) := by
  unfold select?
  rcases bestMatches (R.applicable candidates args) with _ | ⟨n, _ | ⟨n', l⟩⟩
  · constructor
    · intro h
      cases h
    · rintro ⟨w, hw, -⟩
      cases hw
  · have hn : R.winners [n] = [n] := by
      refine List.filter_eq_self.2 fun k hk => ?_
      rw [List.mem_singleton.1 hk, List.all_cons, List.all_nil, Bool.and_true]
      exact atLeastAsSpecific_refl n.candidate
    rw [hn]
    constructor
    · intro h
      exact ⟨n, rfl, Option.some.inj h, .inl rfl⟩
    · rintro ⟨w, hw, rfl, -⟩
      cases hw
      rfl
  · show (R.mostSpecific? (n :: n' :: l)).map Match.candidate = some m ↔ _
    rw [mostSpecific?_eq, Option.map_eq_some_iff]
    constructor
    · rintro ⟨w, hw, rfl⟩
      split at hw
      · cases hw
      · rename_i huntyped
        refine ⟨w, sole?_eq_some_iff.1 hw, rfl, .inr fun k hk => ?_⟩
        exact Bool.eq_false_iff.2 fun hk' => huntyped (List.any_eq_true.2 ⟨k, hk, hk'⟩)
    · rintro ⟨w, hw, rfl, hsingle | huntyped⟩
      · cases hsingle
      · refine ⟨w, ?_, rfl⟩
        rw [if_neg, hw]
        · rfl
        · intro hany
          obtain ⟨k, hk, hk'⟩ := List.any_eq_true.1 hany
          rw [huntyped k hk] at hk'
          cases hk'

/-! ### Applicable candidates -/

theorem conversions?_cons_eq_some_iff {a p : TypeRef} {args params : List TypeRef}
    {cs : List Conversion} :
    R.conversions? (a :: args) (p :: params) = some cs ↔
      ∃ d ds, R.conversion? a p = some d ∧ R.conversions? args params = some ds ∧ cs = d :: ds := by
  constructor
  · intro h
    obtain ⟨d, hd, h⟩ := Option.bind_eq_some_iff.1 h
    obtain ⟨ds, hds, h⟩ := Option.bind_eq_some_iff.1 h
    exact ⟨d, ds, hd, hds, (Option.some.inj h).symm⟩
  · rintro ⟨d, ds, hd, hds, rfl⟩
    exact Option.bind_eq_some_iff.2 ⟨d, hd, Option.bind_eq_some_iff.2 ⟨ds, hds, rfl⟩⟩

theorem length_of_conversions? {args params : List TypeRef} {cs : List Conversion}
    (h : R.conversions? args params = some cs) : params.length = args.length := by
  induction args generalizing params cs with
  | nil =>
    cases params with
    | nil => rfl
    | cons p ps => cases h
  | cons a args ih =>
    cases params with
    | nil => cases h
    | cons p ps =>
      obtain ⟨d, ds, -, hds, -⟩ := conversions?_cons_eq_some_iff.1 h
      rw [List.length_cons, List.length_cons, ih hds]

/-- Each conversion is that of an argument. -/
theorem exists_of_mem_conversions? {args params : List TypeRef} {cs : List Conversion}
    (h : R.conversions? args params = some cs) {c : Conversion} (hc : c ∈ cs) :
    ∃ a ∈ args, ∃ p, R.conversion? a p = some c := by
  induction args generalizing params cs with
  | nil =>
    cases params with
    | nil => cases h; cases hc
    | cons p ps => cases h
  | cons a args ih =>
    cases params with
    | nil => cases h
    | cons p ps =>
      obtain ⟨d, ds, hd, hds, rfl⟩ := conversions?_cons_eq_some_iff.1 h
      rcases List.mem_cons.1 hc with rfl | hc
      · exact ⟨a, List.mem_cons_self, p, hd⟩
      · obtain ⟨b, hb, q, hq⟩ := ih hds hc
        exact ⟨b, List.mem_cons_of_mem a hb, q, hq⟩

theorem candidate_of_match? {args : List TypeRef} {m : Signature} {w : Match Signature}
    (h : R.match? args m = some w) : w.candidate = m := by
  obtain ⟨cs, -, rfl⟩ := Option.map_eq_some_iff.1 h
  rfl

theorem mem_applicable_iff {candidates : List Signature} {args : List TypeRef}
    {w : Match Signature} :
    w ∈ R.applicable candidates args ↔
      w.candidate ∈ candidates ∧ R.match? args w.candidate = some w := by
  unfold applicable
  rw [List.mem_filterMap]
  constructor
  · rintro ⟨m, hm, hw⟩
    rw [candidate_of_match? hw]
    exact ⟨hm, hw⟩
  · rintro ⟨hm, hw⟩
    exact ⟨w.candidate, hm, hw⟩

theorem arity_of_mem_applicable {candidates : List Signature} {args : List TypeRef}
    {w : Match Signature} (h : w ∈ R.applicable candidates args) :
    w.candidate.arity = args.length := by
  obtain ⟨cs, hcs, -⟩ := Option.map_eq_some_iff.1 (mem_applicable_iff.1 h).2
  exact length_of_conversions? hcs

theorem applicable_perm {C D : List Signature} (h : C.Perm D) (args : List TypeRef) :
    (R.applicable C args).Perm (R.applicable D args) :=
  h.filterMap (R.match? args)

theorem applicable_sublist {C D : List Signature} (h : D.Sublist C) (args : List TypeRef) :
    (R.applicable D args).Sublist (R.applicable C args) :=
  h.filterMap (R.match? args)

/-! ### Order and losing candidates -/

theorem winners_perm {tied tied' : List (Match Signature)} (h : tied.Perm tied') :
    (R.winners tied).Perm (R.winners tied') :=
  filter_all_perm
    (fun m n : Match Signature => R.atLeastAsSpecific m.candidate n.candidate) h

/-- The order of the candidates does not matter. -/
theorem select?_perm {C D : List Signature} (h : C.Perm D) (args : List TypeRef) :
    R.select? C args = R.select? D args := by
  have selected {C D : List Signature} (h : C.Perm D) {m : Signature}
      (hm : R.select? C args = some m) : R.select? D args = some m := by
    have hbest := bestMatches_perm (applicable_perm (R := R) h args)
    obtain ⟨w, hw, hcandidate, huntyped⟩ := select?_eq_some_iff.1 hm
    refine select?_eq_some_iff.2 ⟨w, ?_, hcandidate, huntyped.imp (fun hs => ?_) fun hs n hn => ?_⟩
    · exact List.perm_singleton.1 ((winners_perm hbest).symm.trans (hw ▸ .refl _))
    · exact List.perm_singleton.1 (hbest.symm.trans (hs ▸ .refl _))
    · exact hs n (hbest.mem_iff.2 hn)
  refine Option.ext fun m => ⟨selected h, selected h.symm⟩

/-- The winner among tied matches is the winner among fewer of them.  Any other that won there
would be as specific as the winner, and the winner as specific as it, so that it had the winner's
parameters and won among all of them as well. -/
theorem winners_sublist (hR : Layered R) {tied tied' : List (Match Signature)} {arity : Nat}
    (harity : ∀ n ∈ tied, n.candidate.arity = arity) {w : Match Signature}
    (hw : R.winners tied = [w]) (h : tied'.Sublist tied) (hw' : w ∈ tied') :
    R.winners tied' = [w] := by
  have hwin := (of_winners_eq hw).2
  have hmem : w ∈ R.winners tied' := mem_winners_iff.2 ⟨hw', fun n hn => hwin n (h.subset hn)⟩
  have hsub : (R.winners tied').Sublist (R.winners tied) := by
    -- `k` wins among fewer: it has the parameters of `w`, and so wins among all
    refine sublist_filter (List.filter_sublist.trans h) fun k hk => ?_
    obtain ⟨hk, hkwin⟩ := mem_winners_iff.1 hk
    have hkw : k.candidate.arity = w.candidate.arity :=
      (harity k (h.subset hk)).trans (harity w (h.subset hw')).symm
    have hparams := params_eq_of_specific hR hkw (hkwin w hw') (hwin k (h.subset hk))
    refine List.all_eq_true.2 fun n hn => ?_
    have hn := hwin n hn
    unfold atLeastAsSpecific at hn ⊢
    rwa [hparams]
  rw [hw] at hsub
  exact (List.sublist_singleton.1 hsub).resolve_left (List.ne_nil_of_mem hmem)

/-- Losing candidates can be left out. -/
theorem select?_sublist (hR : Layered R) {C D : List Signature} {args : List TypeRef}
    {m : Signature} (h : R.select? C args = some m) (hD : D.Sublist C) (hm : m ∈ D) :
    R.select? D args = some m := by
  obtain ⟨w, hw, rfl, huntyped⟩ := select?_eq_some_iff.1 h
  have hbest := (of_winners_eq hw).1
  have happ := mem_applicable_iff.1 (mem_bestMatches_iff.1 hbest).1
  have hmem : w ∈ R.applicable D args := mem_applicable_iff.2 ⟨hm, happ.2⟩
  obtain ⟨hbest', hsub⟩ := bestMatches_sublist (applicable_sublist hD args) hbest hmem
  have harity : ∀ n ∈ bestMatches (R.applicable C args), n.candidate.arity = args.length :=
    fun n hn => arity_of_mem_applicable (mem_bestMatches_iff.1 hn).1
  refine select?_eq_some_iff.2 ⟨w, winners_sublist hR harity hw hsub hbest', rfl, ?_⟩
  refine huntyped.imp (fun hs => ?_) fun hs n hn => hs n (hsub.subset hn)
  rw [hs] at hsub
  exact (List.sublist_singleton.1 hsub).resolve_left (List.ne_nil_of_mem hbest')

/-- A method that takes a value of a type. -/
def draw (t : TypeId) : Signature :=
  { name := "draw", declaring := .ofName "Canvas", params := [.value t], result := .void,
    attributes := { isPublic := true } }

/-- Selection depends only on which candidates there are and, among these, only on those that
could win: neither their order nor leaving out losing ones changes it. -/
theorem select?_stable (h : Grown R) (args : List TypeRef) :
    (∀ C D : List Signature, C.Perm D → R.select? C args = R.select? D args) ∧
      ∀ (C D : List Signature) (m : Signature), R.select? C args = some m →
        D.Sublist C → m ∈ D → R.select? D args = some m :=
  ⟨fun _ _ hperm => select?_perm hperm args,
    fun _ _ _ hC hD hm => select?_sublist (layered_of_grown h) hC hD hm⟩

/-- A square is drawn as a polygon, in whatever order the ways to draw it are listed. -/
theorem select?_stable_shapes :
    let C := [draw (.ofName "Shape"), draw (.ofName "Polygon"), draw .object]
    let D := [draw (.ofName "Polygon"), draw .object]
    let square := [TypeRef.value (.ofName "Square")]
    shapes.select? C.reverse square = some (draw (.ofName "Polygon")) ∧
      shapes.select? D square = some (draw (.ofName "Polygon")) := by
  intro C D square
  have hC : shapes.select? C square = some (draw (.ofName "Polygon")) := by decide +kernel
  obtain ⟨perm, sub⟩ := select?_stable grown_shapes square
  refine ⟨?_, sub C D _ hC (List.sublist_cons_self _ _) List.mem_cons_self⟩
  rw [← perm C C.reverse (List.reverse_perm C).symm]
  exact hC

end Registry

end TypeSynthesis
