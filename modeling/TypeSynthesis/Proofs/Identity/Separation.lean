import Mathlib.Data.Nat.ModEq
import Mathlib.Data.Nat.Prime.Basic
import TypeSynthesis.Member

/-!
# Identities tell single differences apart

Each step of the mixing can be undone: multiplication by an odd separator loses nothing modulo
`2 ^ 64`, and neither do a sum or an exclusive or with a known word, or a rotation.  What differs in
one place only is thus told apart, however many positions follow and whatever their markers are.

* `Digest.mul_inj_of_odd`, `Digest.rotateLeft_inj`: the steps on words;
* `TypeId.mix_inj`, `TypeId.mix_inj_at`: what is mixed into a word depends injectively on the word,
  and on what stands at each position;
* `TypeRef.key_inj`: the keys of references of one passing mode tell their types apart;
* `identities_separate`: slots, members and instances that differ in one place have different
  identities.

Two differences may cancel out, and a type by reference may have the key of another one by value.
-/

namespace TypeSynthesis

/-! ### Words -/

namespace Digest

variable {x y k : UInt64}

/-- An odd factor can be cancelled. -/
theorem mul_inj_of_odd (odd : k.toNat % 2 = 1) : x * k = y * k ↔ x = y := by
  refine ⟨fun h => ?_, congrArg (· * k)⟩
  have coprime : Nat.Coprime (2 ^ 64) k.toNat :=
    Nat.Coprime.pow_left 64 (Nat.coprime_two_left.2 (Nat.odd_iff.2 odd))
  have products : x.toNat * k.toNat ≡ y.toNat * k.toNat [MOD 2 ^ 64] := by
    have := congrArg UInt64.toNat h
    rwa [UInt64.toNat_mul, UInt64.toNat_mul] at this
  have factors : x.toNat ≡ y.toNat [MOD 2 ^ 64] := products.cancel_right_of_coprime coprime
  exact UInt64.toNat_inj.1 (factors.eq_of_lt_of_lt x.toNat_lt y.toNat_lt)

/-- A rotation moves the bits of a word around. -/
theorem toBitVec_rotateLeft (pos : 0 < k.toNat) (lt : k.toNat < 64) :
    (rotateLeft x k).toBitVec = x.toBitVec.rotateLeft k.toNat := by
  have left : (k.toBitVec % 64).toNat = k.toNat := Nat.mod_eq_of_lt lt
  have right : ((64 - k).toBitVec % 64).toNat = 64 - k.toNat := by
    have rest : (64 - k).toNat = 64 - k.toNat := UInt64.toNat_sub_of_le _ _ (Nat.le_of_lt lt)
    show (64 - k).toNat % 64 = _
    rw [rest, Nat.mod_eq_of_lt (Nat.sub_lt (by decide) pos)]
  rw [BitVec.rotateLeft_eq_rotateLeftAux_of_lt lt]
  unfold rotateLeft BitVec.rotateLeftAux
  rw [UInt64.toBitVec_or, UInt64.toBitVec_shiftLeft, UInt64.toBitVec_shiftRight,
    BitVec.shiftLeft_eq', BitVec.ushiftRight_eq', left, right]

/-- No bit is lost in a rotation. -/
theorem rotateLeft_inj (pos : 0 < k.toNat) (lt : k.toNat < 64) :
    rotateLeft x k = rotateLeft y k ↔ x = y := by
  refine ⟨fun h => ?_, congrArg (rotateLeft · k)⟩
  have rotated : x.toBitVec.rotateLeft k.toNat = y.toBitVec.rotateLeft k.toNat := by
    rw [← toBitVec_rotateLeft pos lt, ← toBitVec_rotateLeft pos lt, h]
  refine UInt64.toBitVec_inj.1 (BitVec.eq_of_getLsbD_eq fun i hi => ?_)
  -- bit `i` has come to place `i + k`, or to `i + k - 64` if it has passed the end
  by_cases stays : i + k.toNat < 64
  · have bit := congrArg (·.getLsbD (i + k.toNat)) rotated
    have high : ¬ i + k.toNat < k.toNat := by omega
    simpa [Nat.mod_eq_of_lt lt, stays, high, hi] using bit
  · have bit := congrArg (·.getLsbD (i + k.toNat - 64)) rotated
    have low : i + k.toNat - 64 < k.toNat := by omega
    have place : 64 - k.toNat + (i + k.toNat - 64) = i := by omega
    have inside : i + k.toNat - 64 < 64 := by omega
    simpa [Nat.mod_eq_of_lt lt, low, place, inside, hi] using bit

end Digest

/-! ### Mixed words -/

namespace TypeId

variable {p q d e : TypeId} {a b : UInt64}

theorem bits_inj : p.bits = q.bits ↔ p = q := by
  cases p; cases q
  exact (mk.injEq _ _).symm.to_iff

theorem mul_separator_inj : a * separator = b * separator ↔ a = b :=
  Digest.mul_inj_of_odd (by decide)

/-- What is mixed into different words gives different words. -/
theorem mixFrom_inj (i : Nat) (ps : List TypeId) : mixFrom i a ps = mixFrom i b ps ↔ a = b := by
  induction ps generalizing i a b with
  | nil => exact Iff.rfl
  | cons p ps ih => rw [mixFrom_cons, mixFrom_cons, ih, UInt64.add_left_inj, mul_separator_inj]

theorem mixFrom_append (i : Nat) (acc : UInt64) (ps qs : List TypeId) :
    mixFrom i acc (ps ++ qs) = mixFrom (i + ps.length) (mixFrom i acc ps) qs := by
  induction ps generalizing i acc with
  | nil => rfl
  | cons p ps ih =>
    rw [List.cons_append, mixFrom_cons, mixFrom_cons, ih, List.length_cons, Nat.add_right_comm,
      Nat.add_assoc]

theorem mix_inj (ps : List TypeId) : mix a ps = mix b ps ↔ a = b := mixFrom_inj 0 ps

/-- Different words at one position give different words, whatever stands before and after. -/
theorem mix_inj_at (acc : UInt64) (before after : List TypeId) :
    mix acc (before ++ p :: after) = mix acc (before ++ q :: after) ↔ p = q := by
  unfold mix
  rw [mixFrom_append, mixFrom_append, mixFrom_cons, mixFrom_cons, mixFrom_inj,
    UInt64.add_right_inj, UInt64.xor_right_inj, bits_inj]

theorem ofSignature_inj_at (name : String) (before after : List TypeId) :
    ofSignature name (before ++ p :: after) = ofSignature name (before ++ q :: after) ↔ p = q :=
  bits_inj.symm.trans (mix_inj_at _ before after)

theorem ofMember_inj_at (owner : TypeId) (name : String) (before after : List TypeId) :
    ofMember owner name (before ++ p :: after) = ofMember owner name (before ++ q :: after) ↔
      p = q :=
  bits_inj.symm.trans (mix_inj_at _ before after)

theorem ofMember_inj_owner (name : String) (params : List TypeId) :
    ofMember d name params = ofMember e name params ↔ d = e := by
  rw [← bits_inj, ofMember, ofMember, mix_inj, UInt64.xor_left_inj, UInt64.xor_right_inj, bits_inj]

theorem ofInstance_inj_at (definition : TypeId) (before after : List TypeId) :
    ofInstance definition (before ++ p :: after) = ofInstance definition (before ++ q :: after) ↔
      p = q :=
  bits_inj.symm.trans (mix_inj_at _ before after)

theorem ofInstance_inj (args : List TypeId) : ofInstance d args = ofInstance e args ↔ d = e := by
  rw [← bits_inj, ofInstance, ofInstance, mix_inj, bits_inj]

end TypeId

/-! ### Signatures, members and instances -/

/-- Among references passed by value, and among those passed by reference, inward or out, the key
tells the types apart. -/
theorem TypeRef.key_inj {p q : TypeRef} (passing : p.isByRef = q.isByRef) :
    p.key = q.key ↔ p.id = q.id := by
  unfold key
  rw [← passing]
  cases p.isByRef with
  | false => rfl
  | true =>
    rw [if_pos rfl, if_pos rfl, ← TypeId.bits_inj, UInt64.xor_left_inj,
      Digest.rotateLeft_inj (by decide) (by decide), TypeId.bits_inj]

/-- Signatures of one name that differ in one parameter, in its type and not in whether it is passed
by reference, fill different slots, and as members of one type they have different identities.
Members that differ in their declaring type alone have different identities too, and so have the
instances of a definition at arguments that differ in one position, and the instances of two
definitions at the same arguments. -/
theorem identities_separate :
    (∀ (m n : Signature) (before after : List TypeRef) (p q : TypeRef), m.name = n.name →
      m.params = before ++ p :: after → n.params = before ++ q :: after →
      p.isByRef = q.isByRef → p.id ≠ q.id →
      m.slot ≠ n.slot ∧ (m.declaring = n.declaring → m.memberId ≠ n.memberId)) ∧
    (∀ m n : Signature, m.name = n.name → m.params = n.params → m.declaring ≠ n.declaring →
      m.memberId ≠ n.memberId) ∧
    (∀ (definition : TypeId) (before after : List TypeId) (p q : TypeId), p ≠ q →
      TypeId.ofInstance definition (before ++ p :: after) ≠
        TypeId.ofInstance definition (before ++ q :: after)) ∧
    ∀ (d e : TypeId) (args : List TypeId), d ≠ e →
      TypeId.ofInstance d args ≠ TypeId.ofInstance e args := by
  refine ⟨fun m n before after p q name hm hn passing differ => ?_,
    fun m n name params differ => ?_, fun definition before after p q differ => ?_,
    fun d e args differ => ?_⟩
  · have keys : p.key ≠ q.key := mt (TypeRef.key_inj passing).1 differ
    refine ⟨?_, fun declaring => ?_⟩
    · rw [Signature.slot, Signature.slot, name, hm, hn, List.map_append, List.map_append,
        List.map_cons, List.map_cons]
      exact mt (TypeId.ofSignature_inj_at _ _ _).1 keys
    · rw [Signature.memberId, Signature.memberId, name, declaring, hm, hn, List.map_append,
        List.map_append, List.map_cons, List.map_cons]
      exact mt (TypeId.ofMember_inj_at _ _ _ _).1 keys
  · rw [Signature.memberId, Signature.memberId, name, params]
    exact mt (TypeId.ofMember_inj_owner _ _).1 differ
  · exact mt (TypeId.ofInstance_inj_at _ _ _).1 differ
  · exact mt (TypeId.ofInstance_inj _).1 differ

/-- A method that takes seventeen numbers, then a value of the given type by reference, then a
text. -/
def pack (owner last : TypeId) : Signature :=
  ⟨"pack", owner,
    List.replicate 17 (.value Primitive.long.id) ++ [.reference last, .value .string], .void,
    .overridable⟩

/-- A position past the sixteen markers counts like the others. -/
theorem identities_separate_pack :
    (pack (.ofName "Codec") Primitive.int.id).slot ≠
      (pack (.ofName "Codec") Primitive.double.id).slot ∧
    (pack (.ofName "Codec") Primitive.int.id).memberId ≠
      (pack (.ofName "Codec") Primitive.double.id).memberId ∧
    (pack (.ofName "Codec") Primitive.int.id).memberId ≠
      (pack (.ofName "Stream") Primitive.int.id).memberId ∧
    TypeId.ofInstance (.ofName "Codec") [.object, Primitive.int.id, .string] ≠
      TypeId.ofInstance (.ofName "Codec") [.object, Primitive.double.id, .string] ∧
    TypeId.ofInstance (.ofName "Codec") [.object, .string] ≠
      TypeId.ofInstance (.ofName "Stream") [.object, .string] := by
  have types : Primitive.int.id ≠ Primitive.double.id := by decide +kernel
  have owners : TypeId.ofName "Codec" ≠ TypeId.ofName "Stream" := by decide +kernel
  obtain ⟨params, declaring, args, definitions⟩ := identities_separate
  -- stated for any types, so that no digest is evaluated to compare the signatures
  have packs {owner a b : TypeId} (h : a ≠ b) : (pack owner a).slot ≠ (pack owner b).slot ∧
      (pack owner a).memberId ≠ (pack owner b).memberId := by
    obtain ⟨slots, members⟩ := params (pack owner a) (pack owner b)
      (List.replicate 17 (.value Primitive.long.id)) [.value .string] (.reference a) (.reference b)
      rfl rfl rfl rfl h
    exact ⟨slots, members rfl⟩
  have owned {a b last : TypeId} (h : a ≠ b) : (pack a last).memberId ≠ (pack b last).memberId :=
    declaring (pack a last) (pack b last) rfl rfl h
  exact ⟨(packs types).1, (packs types).2, owned owners,
    args (.ofName "Codec") [.object] [.string] Primitive.int.id Primitive.double.id types,
    definitions (.ofName "Codec") (.ofName "Stream") [.object, .string] owners⟩

end TypeSynthesis
