import TypeSynthesis.Proofs.Hierarchy.Grown
import TypeSynthesis.Proofs.Idempotence.Basic
import TypeSynthesis.Proofs.Synthesis.Owners
import TypeSynthesis.Proofs.Synthesis.Supertypes

/-!
# The outcome of a record definition

Where all names that a record definition mentions are resolved, what becomes of it depends on its
volatile fields alone.

* `Registry.MayBeVolatile`: the types that a volatile field may have;
* `RecordHead.Resolution`: the interfaces, field types and signatures that the names of a record
  definition denote;
* `ClassType.IsRecordOf`: the class of a record definition, in every part;
* `declareFields_eq_ok`, `declareFields_eq_error`: the fields are declared in order, up to the first
  one that may not be volatile;
* `synthesizeRecord_outcome`: the class is registered, or the first such field is reported and no
  type of the record's name is registered.

On the way, resolution registers nothing but pointer types, whose names end in a star.  The name of
a record that does not end in one is therefore free until the record is registered under it.
-/

namespace TypeSynthesis

open Registry

/-! ### Types of volatile fields -/

namespace Registry

/-- A volatile field may have the type: by value, a pointer, a class or an interface, a primitive
that is read atomically, or an enumeration over an integer of at most 32 bits. -/
inductive MayBeVolatile (R : Registry) : TypeRef → Prop
  | pointer {t : TypeId} {p : PointerType} (h : R.get? t = some (.pointerType p)) :
      MayBeVolatile R (.value t)
  | ofClass {t : TypeId} {c : ClassType} (h : R.get? t = some (.classType c)) :
      MayBeVolatile R (.value t)
  | ofInterface {t : TypeId} {i : InterfaceType} (h : R.get? t = some (.interfaceType i)) :
      MayBeVolatile R (.value t)
  | atomic {t : TypeId} {p : Primitive} (h : R.get? t = some (.primitive p))
      (listed : p ∈ [.bool, .byte, .sbyte, .short, .ushort, .int, .uint, .char, .float, .nint,
        .nuint]) : MayBeVolatile R (.value t)
  | narrow {t : TypeId} {e : EnumType} (h : R.get? t = some (.enumType e))
      (listed : e.underlying ∈ [.byte, .sbyte, .short, .ushort, .int, .uint]) :
      MayBeVolatile R (.value t)

variable {R S : Registry} {t : TypeRef}

theorem isVolatileCompatible_iff : R.isVolatileCompatible t = true ↔ R.MayBeVolatile t := by
  have atomic (p : Primitive) : p.isAtomic = true ↔ p ∈ [.bool, .byte, .sbyte, .short, .ushort,
      .int, .uint, .char, .float, .nint, .nuint] := by
    cases p <;> decide
  have narrow (p : Primitive) : p.isNarrowInteger = true ↔
      p ∈ [.byte, .sbyte, .short, .ushort, .int, .uint] := by
    cases p <;> decide
  constructor
  · intro h
    obtain ⟨byValue, h⟩ := Bool.and_eq_true_iff.1 h
    obtain ⟨id, passing⟩ := t
    obtain rfl : passing = .byValue := by simpa [TypeRef.isByRef] using byValue
    split at h
    · exact .pointer ‹_›
    · exact .ofClass ‹_›
    · exact .ofInterface ‹_›
    · exact .atomic ‹_› ((atomic _).1 h)
    · exact .narrow ‹_› ((narrow _).1 h)
    · cases h
  · rintro (h | h | h | ⟨h, listed⟩ | ⟨h, listed⟩) <;>
      refine Bool.and_eq_true_iff.2 ⟨rfl, ?_⟩ <;> simp only [TypeRef.value, h]
    · exact (atomic _).2 listed
    · exact (narrow _).2 listed

/-- Whether a volatile field may have a type is seen from the type's definition. -/
theorem isVolatileCompatible_congr (h : R.get? t.id = S.get? t.id) :
    R.isVolatileCompatible t = S.isVolatileCompatible t := by
  unfold isVolatileCompatible
  rw [h]

/-- The field may have its type. -/
def Permits (R : Registry) (f : FieldDecl) (t : TypeRef) : Prop :=
  f.mutability = .volatile → R.MayBeVolatile t

theorem permits_iff {f : FieldDecl} : R.Permits f t ↔
    (decide (f.mutability = .volatile) && !R.isVolatileCompatible t) = false := by
  unfold Permits
  rw [← isVolatileCompatible_iff]
  cases R.isVolatileCompatible t <;> simp

instance (R : Registry) (f : FieldDecl) (t : TypeRef) : Decidable (R.Permits f t) :=
  decidable_of_iff _ permits_iff.symm

end Registry

/-! ### Resolved names -/

/-- What the names of a record definition denote in a session: its interfaces, then the hints of
its fields, then the methods supplied to it, each resolved where the last one has led. -/
structure RecordHead.Resolution (head : RecordHead) (ms : List MethodHead) (s : Session) where
  requested : List TypeId
  types : List TypeRef
  signatures : List Signature
  named : Session
  typed : Session
  last : Session
  interfaces_eq : head.interfaces.mapM
    (SynthM.resolveInterface ("deftype " ++ head.name)) s = .ok requested named
  fields_eq : head.fields.mapM
    (fun f => SynthM.resolveHint ("deftype " ++ head.name) f.hint?) named = .ok types typed
  methods_eq : ms.mapM (SynthM.resolveMethod ("deftype " ++ head.name)
    (.collect typed.registry .object requested)) typed = .ok signatures last

namespace RecordHead.Resolution

variable {head : RecordHead} {ms : List MethodHead} {s : Session} (r : head.Resolution ms s)

theorem grows_named : s.registry.Grows r.named.registry :=
  (Moves.mapM (Session.grows_respected.interfaceName _) _).of_ok r.interfaces_eq

theorem grows_typed : r.named.registry.Grows r.typed.registry :=
  (Moves.mapM (fun f : FieldDecl => Session.grows_respected.hint _ f.hint?) _).of_ok r.fields_eq

theorem grows_last : r.typed.registry.Grows r.last.registry :=
  (Moves.mapM (Session.grows_respected.method _ _) _).of_ok r.methods_eq

theorem wellNamed_last (named : s.registry.WellNamed) : r.last.registry.WellNamed := by
  have keeps := Session.keepsNames_respected
  have h₁ := (Moves.mapM (keeps.interfaceName _) _).of_ok r.interfaces_eq
  have h₂ := (Moves.mapM (fun f : FieldDecl => keeps.hint _ f.hint?) _).of_ok r.fields_eq
  have h₃ := (Moves.mapM (keeps.method _ _) _).of_ok r.methods_eq
  exact h₃ (h₂ (h₁ named))

theorem containsName_last {name : String} (starless : name.toList.getLast? ≠ some '*') :
    r.last.registry.containsName name = s.registry.containsName name := by
  have points := Session.points_pointing
  have h₁ : s.registry.Points r.named.registry :=
    (Moves.mapM (points.interfaceName _) _).of_ok r.interfaces_eq
  have h₂ : r.named.registry.Points r.typed.registry :=
    (Moves.mapM (fun f : FieldDecl => points.hint _ f.hint?) _).of_ok r.fields_eq
  have h₃ : r.typed.registry.Points r.last.registry :=
    (Moves.mapM (points.method _ _) _).of_ok r.methods_eq
  exact ((h₁.trans h₂).trans h₃).containsName_eq starless

end RecordHead.Resolution

/-! ### The steps of the definition -/

namespace SynthM

variable {construct name : String} {draft : ClassType} {s t : Session} {last : Registry}

/-- A class is begun under a free name, over a class that is not sealed. -/
theorem beginClass_eq_ok {R : Registry} {base : TypeId} {b : ClassType} {is : List TypeId}
    (free : R.containsName name = false) (hb : R.class? base = some b)
    (unsealed : b.isSealed = false)
    (his : ∀ i ∈ is, R.isInterface i = true) :
    R.beginClass name base is =
      .ok (is.foldl .withInterface { name, origin := .synthesized, base? := some base }) := by
  have hname : R.checkName name = .ok () := by
    unfold Registry.checkName
    rw [free]
    rfl
  have hbase : R.checkBase base = .ok () := by
    unfold Registry.checkBase
    rw [hb]
    dsimp only
    rw [unsealed]
    rfl
  unfold Registry.beginClass
  rw [hname, hbase, checkInterfaces_eq_ok his]
  rfl

/-- Repeated interfaces count once, at their first place. -/
theorem interfaces_foldl_withInterface (c : ClassType) (is : List TypeId) :
    (is.foldl ClassType.withInterface c).interfaces =
      c.interfaces ++ (is.filter (· ∉ c.interfaces)).eraseDups := by
  induction is generalizing c with
  | nil => simp
  | cons i is ih =>
    rw [List.foldl_cons, ih]
    unfold ClassType.withInterface
    split
    · rename_i old
      rw [List.filter_cons_of_neg (by simpa using old)]
    · rename_i new
      rw [List.filter_cons_of_pos (by simpa using new), List.eraseDups_cons, List.filter_filter,
        List.append_assoc, List.singleton_append]
      congr 3
      refine List.filter_congr fun j _ => ?_
      simp [and_comm, Bool.beq_eq_decide_eq]

/-- What a hint denotes is defined as in any later registry where no type has displaced another. -/
theorem get?_of_resolveHint {hint? : Option TypeName} {type : TypeRef}
    (h : resolveHint construct hint? s = .ok type t) (sound : s.registry.Sound)
    (root : s.registry.contains .object = true) (grows : t.registry.Grows last)
    (distinct : last.Distinct) (named : last.WellNamed) :
    t.registry.get? type.id = last.get? type.id := by
  have known : t.registry.contains type.id = true := by
    cases hint? with
    | none =>
      obtain ⟨rfl, rfl⟩ := pure_eq_ok_iff.1 h
      exact root
    | some n =>
      exact (resolveReversed_again sound (resolve_of_resolveTypeName h) grows distinct named).2
  have sound' := sound.of_grows ((Session.grows_respected.hint construct hint?).of_ok h)
  exact (get?_eq_of_grows sound' grows distinct fun _ => known).symm

theorem declareField_eq {f : FieldDecl} {type : TypeRef}
    (h : resolveHint construct f.hint? s = .ok type t) :
    declareField construct draft f s =
      if f.mutability = .volatile && !t.registry.isVolatileCompatible type then
        .error (.invalidVolatileField f.name (t.registry.display type) f.span) t
      else .ok (draft.withField ⟨f.name, type, f.mutability.attributes⟩) t := by
  unfold declareField
  rw [bind_run_ok h]
  show (if _ then _ else _ : SynthM ClassType) t = _
  split <;> rfl

/-- The class with further fields, each of its type. -/
def withFields (c : ClassType) (fs : List FieldDecl) (types : List TypeRef) : ClassType :=
  { c with fields :=
      c.fields ++ (fs.zip types).map fun x => ⟨x.1.name, x.2, x.1.mutability.attributes⟩ }

section Fields

variable {fs : List FieldDecl} {types : List TypeRef} (sound : s.registry.Sound)
  (root : s.registry.contains .object = true) (grows : t.registry.Grows last)
  (distinct : last.Distinct) (named : last.WellNamed)
include sound root grows distinct named

/-- Where every field may have its type, the fields are declared in order. -/
theorem declareFields_eq_ok
    (h : fs.mapM (fun f => resolveHint construct f.hint?) s = .ok types t)
    (permits : ∀ x ∈ fs.zip types, last.Permits x.1 x.2) :
    fs.foldlM (declareField construct) draft s = .ok (withFields draft fs types) t := by
  induction fs generalizing draft types s with
  | nil =>
    obtain ⟨rfl, rfl⟩ := pure_eq_ok_iff.1 h
    simp [withFields]
    rfl
  | cons f fs ih =>
    rw [List.mapM_cons] at h
    obtain ⟨type, u, htype, h⟩ := bind_eq_ok_iff.1 h
    obtain ⟨types', v, htypes, h⟩ := bind_eq_ok_iff.1 h
    obtain ⟨rfl, rfl⟩ := pure_eq_ok_iff.1 h
    have first : s.registry.Grows u.registry := (Session.grows_respected.hint ..).of_ok htype
    have rest : u.registry.Grows v.registry :=
      (Moves.mapM (fun f : FieldDecl => Session.grows_respected.hint _ f.hint?) _).of_ok htypes
    have same := get?_of_resolveHint htype sound root (rest.trans grows) distinct named
    have allowed := permits_iff.1 (permits (f, type) List.mem_cons_self)
    rw [← isVolatileCompatible_congr same] at allowed
    rw [List.foldlM_cons, bind_run_ok ((declareField_eq htype).trans (by rw [allowed]; rfl)),
      ih (sound.of_grows first) (contains_of_grows first root) htypes
        fun x hx => permits x (List.mem_cons_of_mem _ hx)]
    simp [withFields, ClassType.withField]

/-- The first field that may not have its type is reported. -/
theorem declareFields_eq_error {before after : List (FieldDecl × TypeRef)} {f : FieldDecl}
    {type : TypeRef} (h : fs.mapM (fun f => resolveHint construct f.hint?) s = .ok types t)
    (parts : fs.zip types = before ++ (f, type) :: after)
    (permits : ∀ x ∈ before, last.Permits x.1 x.2) (refused : ¬ last.Permits f type) :
    ∃ u, fs.foldlM (declareField construct) draft s =
        .error (.invalidVolatileField f.name (last.display type) f.span) u ∧
      u.registry.Grows t.registry := by
  induction fs generalizing draft types before s with
  | nil => cases before <;> cases parts
  | cons f' fs ih =>
    rw [List.mapM_cons] at h
    obtain ⟨type', u, htype, h⟩ := bind_eq_ok_iff.1 h
    obtain ⟨types', v, htypes, h⟩ := bind_eq_ok_iff.1 h
    obtain ⟨rfl, rfl⟩ := pure_eq_ok_iff.1 h
    have first : s.registry.Grows u.registry := (Session.grows_respected.hint ..).of_ok htype
    have rest : u.registry.Grows v.registry :=
      (Moves.mapM (fun f : FieldDecl => Session.grows_respected.hint _ f.hint?) _).of_ok htypes
    have same := get?_of_resolveHint htype sound root (rest.trans grows) distinct named
    rw [List.foldlM_cons]
    cases before with
    | nil =>
      obtain ⟨here, -⟩ := List.cons.inj parts
      obtain ⟨rfl, rfl⟩ := Prod.mk.inj here
      rw [permits_iff, Bool.not_eq_false, ← isVolatileCompatible_congr same] at refused
      have display : last.display type' = u.registry.display type' := by
        unfold Registry.display Registry.typeName
        rw [same]
      refine ⟨u, ?_, rest⟩
      rw [bind_run_error ((declareField_eq htype).trans (by rw [refused]; rfl)), display]
    | cons x before =>
      obtain ⟨rfl, parts'⟩ := List.cons.inj parts
      have allowed := permits_iff.1 (permits (f', type') List.mem_cons_self)
      rw [← isVolatileCompatible_congr same] at allowed
      rw [bind_run_ok ((declareField_eq htype).trans (by rw [allowed]; rfl))]
      exact ih (sound.of_grows first) (contains_of_grows first root) htypes parts'
        fun x hx => permits x (List.mem_cons_of_mem _ hx)

end Fields

/-- The class with further methods. -/
def withMethods (c : ClassType) (ms : List Signature) : ClassType :=
  { c with methods := c.methods ++ ms }

/-- Where every supplied method is resolved, all of them are declared in order. -/
theorem implementAll_of_mapM {candidates : Candidates} {ms : List MethodHead}
    {sigs : List Signature} (h : ms.mapM (resolveMethod construct candidates) s = .ok sigs t) :
    implementAll construct candidates draft ms s =
      .ok (withMethods draft (ms.zipWith (·.implementation draft.id ·) sigs),
        ms.zipWith (·.implement draft.id ·) sigs) t := by
  induction ms generalizing draft sigs s with
  | nil =>
    obtain ⟨rfl, rfl⟩ := pure_eq_ok_iff.1 h
    have same : withMethods draft [] = draft := by
      unfold withMethods
      rw [List.append_nil]
    rw [List.zipWith_nil_left, same]
    rfl
  | cons m ms ih =>
    rw [List.mapM_cons] at h
    obtain ⟨sig, u, hsig, h⟩ := bind_eq_ok_iff.1 h
    obtain ⟨sigs', v, hsigs, h⟩ := bind_eq_ok_iff.1 h
    obtain ⟨rfl, rfl⟩ := pure_eq_ok_iff.1 h
    have one (more : List Signature) :
        withMethods (draft.declare m.name .implementation sig.result sig.params) more =
          withMethods draft (m.implementation draft.id sig :: more) :=
      congrArg (fun methods => { draft with methods }) (List.append_assoc ..)
    unfold implementAll
    simp only [MemberName.qualifiedMember_ofText]
    rw [bind_run_ok hsig, bind_run_ok (ih hsigs), one]
    rfl

end SynthM

/-! ### The outcome -/

/-- The registries that plain operations build from that of the host. -/
def Registry.BuiltOnHost (R : Registry) : Prop :=
  ∃ os : List Operation, (∀ o ∈ os, o.isPlain = true) ∧ os.foldl Operation.after host = R

namespace Registry.BuiltOnHost

variable {R : Registry} (h : R.BuiltOnHost)
include h

theorem built : R.Built := by
  obtain ⟨os, plain, same⟩ := h
  exact ⟨host, by simp, os, plain, same⟩

theorem grows : host.Grows R := by
  obtain ⟨os, -, rfl⟩ := h
  exact grows_foldl_after host os

end Registry.BuiltOnHost

/-- The class of a record definition: it derives from the root class, requests the interfaces, each
once, and declares the fields and a method for each supplied one in order, and then the static
method that returns the field names. -/
structure ClassType.IsRecordOf (c : ClassType) (name : String) (requested : List TypeId)
    (fields : List FieldDecl) (types : List TypeRef) (ms : List MethodHead)
    (sigs : List Signature) : Prop where
  name_eq : c.name = name
  base : c.base? = some .object
  interfaces : c.interfaces = requested.eraseDups
  names : c.fields.map Field.name = fields.map FieldDecl.name
  types : c.fields.map Field.type = types
  writable : c.fields.map Field.isWritable =
    fields.map fun f => decide (f.mutability ≠ .writeOnce)
  volatile : c.fields.map Field.isVolatile =
    fields.map fun f => decide (f.mutability = .volatile)
  supplied : sigs.length = ms.length
  methods : c.methods = ms.zipWith (·.implementation c.id ·) sigs ++
    [{ name := "getBasis", declaring := c.id, params := [], result := .object,
       attributes := { isPublic := true, isStatic := true } }]

theorem ClassType.foldl_withInterface (c : ClassType) (is : List TypeId) :
    is.foldl .withInterface c =
      { c with interfaces := (is.foldl ClassType.withInterface c).interfaces } := by
  induction is generalizing c with
  | nil => rfl
  | cons i is ih =>
    rw [List.foldl_cons, ih]
    unfold withInterface
    split <;> rfl

namespace RecordHead.Resolution

variable {head : RecordHead} {ms : List MethodHead} {s : Session} (r : head.Resolution ms s)
  {name : String}

theorem length_types : r.types.length = head.fields.length :=
  (Moves.forall₂_mapM (fun f : FieldDecl => Session.grows_respected.hint _ f.hint?)
    r.fields_eq).length_eq.symm

theorem length_signatures : r.signatures.length = ms.length :=
  (Moves.forall₂_mapM (Session.grows_respected.method _ _) r.methods_eq).length_eq.symm

/-- The class with the interfaces alone. -/
def start (name : String) : ClassType :=
  { name, origin := .synthesized, base? := some .object, interfaces := r.requested.eraseDups }

/-- The class that the names of the definition describe. -/
def classNamed (name : String) : ClassType :=
  { r.start name with
    fields := (head.fields.zip r.types).map fun x => ⟨x.1.name, x.2, x.1.mutability.attributes⟩
    methods := ms.zipWith (·.implementation (.ofName name) ·) r.signatures ++
      [{ name := basisName, declaring := .ofName name, params := [], result := .object,
         attributes := { isPublic := true, isStatic := true } }] }

theorem isRecordOf_classNamed (name : String) :
    (r.classNamed name).IsRecordOf name r.requested head.fields r.types ms r.signatures := by
  have names {β : Type} (k : FieldDecl → β) :
      (head.fields.zip r.types).map (fun x => k x.1) = head.fields.map k := by
    have whole := congrArg (List.map k) (List.map_fst_zip r.length_types.ge)
    rwa [List.map_map] at whole
  have types : (head.fields.zip r.types).map (fun x => x.2) = r.types :=
    List.map_snd_zip r.length_types.le
  constructor
  case name_eq | base | interfaces | methods => rfl
  case supplied => exact r.length_signatures
  case types => exact (List.map_map ..).trans types
  case names => exact (List.map_map ..).trans (names FieldDecl.name)
  case writable =>
    refine (List.map_map ..).trans (Eq.trans ?_ (names _))
    refine List.map_congr_left fun x _ => ?_
    cases h : x.1.mutability <;> simp [Field.isWritable, Mutability.attributes, h]
  case volatile =>
    refine (List.map_map ..).trans (Eq.trans ?_ (names _))
    refine List.map_congr_left fun x _ => ?_
    cases h : x.1.mutability <;> simp [Field.isVolatile, Mutability.attributes, h]

/-- Where the interfaces have been resolved, a class that requests them is begun. -/
theorem begun (built : s.registry.BuiltOnHost) (free : r.last.registry.containsName name = false)
    (distinct : r.last.registry.Distinct) :
    r.named.registry.class? .object = some objectClass ∧
    r.named.registry.beginClass name .object r.requested = .ok (r.start name) := by
  have later := r.grows_typed.trans r.grows_last
  have distinct' := distinct.of_grows later
  have object : r.named.registry.class? .object = some objectClass := by
    have kept := get?_eq_of_grows (built_of_mem_starts (by simp)).sound
      (built.grows.trans r.grows_named) distinct' fun _ =>
        contains_eq_true_iff.2 ⟨_, get?_object_host⟩
    unfold class?
    rw [kept, get?_object_host]
    rfl
  have free' : r.named.registry.containsName name = false :=
    containsName_eq_false_of_grows later free
  refine ⟨object, ?_⟩
  rw [SynthM.beginClass_eq_ok free' object rfl
    (SynthM.isInterface_of_mapM built.built.sound r.interfaces_eq distinct'),
    ClassType.foldl_withInterface, SynthM.interfaces_foldl_withInterface, List.nil_append,
    List.filter_eq_self.2 (by simp)]
  rfl

end RecordHead.Resolution

namespace SynthM

variable {o : Options} {head : RecordHead} {ms : List MethodHead} {s : Session}

/-- A record definition whose names are resolved, over a registry built on that of the host in which
its full name is free, has one of two outcomes.  Where every volatile field may be so, a class of
this name is registered that has the record's fields, interfaces and methods.  Otherwise the first
volatile field that may not be so is reported with its type, and the name stays free.  It is assumed
that the name does not end in a star, and that no two names share an identity in the end, the
record's own among them. -/
theorem synthesizeRecord_outcome (r : head.Resolution ms s) (built : s.registry.BuiltOnHost)
    (free : s.registry.containsName (o.qualify head.name) = false)
    (starless : (o.qualify head.name).toList.getLast? ≠ some '*')
    (apart : (r.last.registry.add (.classType { name := o.qualify head.name })).Distinct) :
    ((∀ x ∈ head.fields.zip r.types, r.last.registry.Permits x.1 x.2) →
      ∃ done t c, synthesizeRecord o head ms s =
          .ok (⟨o.qualify head.name, .ofName (o.qualify head.name)⟩, done) t ∧
        t.registry.find? (o.qualify head.name) = some (.classType c) ∧
        c.IsRecordOf (o.qualify head.name) r.requested head.fields r.types ms r.signatures) ∧
    ∀ before f type after, head.fields.zip r.types = before ++ (f, type) :: after →
      (∀ x ∈ before, r.last.registry.Permits x.1 x.2) → ¬ r.last.registry.Permits f type →
      ∃ t, synthesizeRecord o head ms s =
          .error (.invalidVolatileField f.name (r.last.registry.display type) f.span) t ∧
        t.registry.containsName (o.qualify head.name) = false ∧
        t.registry.contains (.ofName (o.qualify head.name)) = false := by
  let name := o.qualify head.name
  have nameFree : r.last.registry.containsName name = false :=
    (r.containsName_last starless).trans free
  have distinct : r.last.registry.Distinct := apart.of_grows (Grows.refl.add nameFree)
  have soundNamed : r.named.registry.Sound := built.built.sound.of_grows r.grows_named
  have soundLast : r.last.registry.Sound :=
    soundNamed.of_grows (r.grows_typed.trans r.grows_last)
  have wellNamed : r.last.registry.WellNamed := r.wellNamed_last built.built.wellNamed
  have idFree : r.last.registry.contains (.ofName name) = false :=
    soundLast.free_of_distinct (e := .classType { name }) nameFree apart
  obtain ⟨object, begun⟩ := r.begun built nameFree distinct
  have root : r.named.registry.contains .object = true :=
    contains_eq_true_iff.2 ⟨_, get?_of_class? object⟩
  constructor
  · intro permits
    have fields : head.fields.foldlM (declareField _) (r.start name) r.named = .ok _ r.typed :=
      declareFields_eq_ok soundNamed root r.grows_last distinct wellNamed r.fields_eq permits
    have methods : implementAll _ _ (withFields (r.start name) head.fields r.types) ms r.typed =
        .ok _ r.last := implementAll_of_mapM r.methods_eq
    have seen : registry r.typed = .ok r.typed.registry r.typed := rfl
    have finished : SynthM.finish (r.classNamed name) r.last = .ok _ _ :=
      finish_eq_ok nameFree idFree
    refine ⟨ms.zipWith (·.implement (.ofName name) ·) r.signatures,
      r.last.withRegistry (r.last.registry.add (.classType (r.classNamed name))),
      r.classNamed name, ?_, ?_, r.isRecordOf_classNamed name⟩
    · unfold synthesizeRecord
      rw [bind_run_ok r.interfaces_eq, bind_run_ok (consult_eq_ok_iff.2 ⟨begun, rfl⟩),
        bind_run_ok fields, bind_run_ok seen, bind_run_ok methods]
      exact bind_run_ok finished
    · refine find?_eq_some_iff.2 ⟨.ofName name, ?_, ?_⟩
      · exact (names_get?_add ..).trans (if_pos rfl)
      · exact (get?_add ..).trans (if_pos rfl)
  · intro before f type after parts permits refused
    obtain ⟨t, failed, grows⟩ : ∃ t, head.fields.foldlM (declareField _) (r.start name) r.named =
          .error (.invalidVolatileField f.name (r.last.registry.display type) f.span) t ∧
        t.registry.Grows r.typed.registry :=
      declareFields_eq_error soundNamed root r.grows_last distinct wellNamed r.fields_eq parts
        permits refused
    have later : t.registry.Grows r.last.registry := grows.trans r.grows_last
    refine ⟨t, ?_, containsName_eq_false_of_grows later nameFree,
      contains_eq_false_of_grows later idFree⟩
    unfold synthesizeRecord
    rw [bind_run_ok r.interfaces_eq, bind_run_ok (consult_eq_ok_iff.2 ⟨begun, rfl⟩),
      bind_run_error failed]

/-- Whether the names of a record definition are resolved in a session, and what they denote passes
a test with the session in the end. -/
def resolvesTo (head : RecordHead) (ms : List MethodHead) (s : Session)
    (q : List TypeRef → Session → Bool) : Bool :=
  accepted (fun requested named =>
    accepted (fun types typed =>
      accepted (fun _ last => q types last)
        (ms.mapM (resolveMethod ("deftype " ++ head.name)
          (.collect typed.registry .object requested)) typed))
      (head.fields.mapM (fun f => resolveHint ("deftype " ++ head.name) f.hint?) named))
    (head.interfaces.mapM (resolveInterface ("deftype " ++ head.name)) s)

theorem exists_resolution {q : List TypeRef → Session → Bool}
    (h : resolvesTo head ms s q = true) : ∃ r : head.Resolution ms s, q r.types r.last = true := by
  obtain ⟨requested, named, interfaces_eq, h⟩ := exists_of_accepted h
  obtain ⟨types, typed, fields_eq, h⟩ := exists_of_accepted h
  obtain ⟨signatures, last, methods_eq, h⟩ := exists_of_accepted h
  exact ⟨⟨requested, types, signatures, named, typed, last, interfaces_eq, fields_eq, methods_eq⟩,
    h⟩

/-- A record with a volatile count and a field over a type of its own, which is volatile as well. -/
def cellHead (hint : String) : RecordHead :=
  { name := "Cell", selfName := "self", interfaces := [⟨"sable.lang.IObj", .unknown⟩]
    fields :=
      [{ name := "count", hint? := some ⟨"int", .unknown⟩, mutability := .volatile },
       { name := "value", hint? := some ⟨hint, .unknown⟩, mutability := .volatile },
       { name := "next" }] }

theorem qualify_cellHead (hint : String) :
    ({} : Options).qualify (cellHead hint).name = "sable.gen.Cell" := by
  unfold Options.qualify
  exact if_neg (by decide)

/-- The text of the record. -/
def cellMethods : List MethodHead := [{ name := "ToString", captures := .empty }]

/-- Whether the names of the record end apart, its own among them. -/
def apartWith (name : String) (t : Session) : Bool :=
  decide (t.registry.add (.classType { name })).names.values.Nodup

theorem synthesizeRecord_outcome_cell :
    (∃ done t c, synthesizeRecord {} (cellHead "double*") cellMethods { registry := .host } =
        .ok (⟨"sable.gen.Cell", .ofName "sable.gen.Cell"⟩, done) t ∧
      t.registry.find? "sable.gen.Cell" = some (.classType c) ∧
      c.fields.map Field.isVolatile = [true, true, false]) ∧
    ∃ t, synthesizeRecord {} (cellHead "double") cellMethods { registry := .host } =
      .error (.invalidVolatileField "value" "double" .unknown) t := by
  have built : host.BuiltOnHost := ⟨[], nofun, List.foldl_nil⟩
  constructor
  · have h : resolvesTo (cellHead "double*") cellMethods { registry := .host } (fun types t =>
        apartWith "sable.gen.Cell" t &&
          decide (∀ x ∈ (cellHead "double*").fields.zip types, t.registry.Permits x.1 x.2)) =
            true := by
      decide +kernel
    obtain ⟨r, h⟩ := exists_resolution h
    obtain ⟨apart, permits⟩ := Bool.and_eq_true_iff.1 h
    have outcome := synthesizeRecord_outcome (o := {}) r built
    rw [qualify_cellHead] at outcome
    obtain ⟨done, t, c, made, known, class_⟩ := (outcome (by decide +kernel) (by decide +kernel)
      (distinct_of_nodup (of_decide_eq_true apart))).1 (of_decide_eq_true permits)
    exact ⟨done, t, c, made, known, class_.volatile.trans (by decide)⟩
  · have h : resolvesTo (cellHead "double") cellMethods { registry := .host } (fun types t =>
        apartWith "sable.gen.Cell" t && decide (types =
          [.value Primitive.int.id, .value Primitive.double.id, .object] ∧
            t.registry = .host)) = true := by
      decide +kernel
    obtain ⟨r, h⟩ := exists_resolution h
    obtain ⟨apart, denoted⟩ := Bool.and_eq_true_iff.1 h
    obtain ⟨types, unchanged⟩ := of_decide_eq_true denoted
    have parts : (cellHead "double").fields.zip r.types =
        [((cellHead "double").fields[0], .value Primitive.int.id)] ++
          ((cellHead "double").fields[1], .value Primitive.double.id) ::
            [((cellHead "double").fields[2], .object)] := by
      rw [types]
      rfl
    have outcome := synthesizeRecord_outcome (o := {}) r built
    rw [qualify_cellHead] at outcome
    obtain ⟨t, failed, -, -⟩ := (outcome (by decide +kernel) (by decide +kernel)
      (distinct_of_nodup (of_decide_eq_true apart))).2 _ _ _ _ parts
        (by rw [unchanged]; decide +kernel) (by rw [unchanged]; decide +kernel)
    have written : Registry.host.display (.value Primitive.double.id) = "double" := by
      decide +kernel
    rw [unchanged, written] at failed
    exact ⟨t, failed⟩

/-- A record whose name has the identity of the pointer type that its field mentions. -/
def keyHead : RecordHead :=
  { name := "EntryKey", selfName := "self"
    fields := [{ name := "key", hint? := some ⟨"QlunqgbaYVbLoin*", .unknown⟩ }] }

/-- The registration of a record fails where a pointer type that its fields mention has taken its
identity. -/
theorem not_synthesizeRecord_outcome :
    ¬ ∀ (o : Options) (head : RecordHead) (ms : List MethodHead) (s : Session)
      (r : head.Resolution ms s), s.registry.BuiltOnHost → s.registry.Distinct →
      s.registry.containsName (o.qualify head.name) = false →
      s.registry.contains (.ofName (o.qualify head.name)) = false →
      (o.qualify head.name).toList.getLast? ≠ some '*' →
      (∀ x ∈ head.fields.zip r.types, r.last.registry.Permits x.1 x.2) →
      ∃ x t, synthesizeRecord o head ms s = .ok x t := by
  intro h
  let s : Session := { registry := hostWith [.classType { name := "QlunqgbaYVbLoin" }] }
  have resolves : resolvesTo keyHead [] s (fun types t =>
      decide (∀ x ∈ keyHead.fields.zip types, t.registry.Permits x.1 x.2)) = true := by
    decide +kernel
  obtain ⟨r, permits⟩ := exists_resolution resolves
  have built : s.registry.BuiltOnHost :=
    ⟨[.register (.classType { name := "QlunqgbaYVbLoin" })], by simp [Operation.isPlain], rfl⟩
  obtain ⟨x, t, made⟩ := h { qualifier := "Catalog" } keyHead [] s r built
    (distinct_of_nodup (by decide +kernel)) (by decide +kernel) (by decide +kernel)
    (by decide +kernel) (of_decide_eq_true permits)
  have refused : accepted (fun _ _ => true)
      (synthesizeRecord { qualifier := "Catalog" } keyHead [] s) = false := by
    decide +kernel
  rw [made] at refused
  cases refused

end SynthM

end TypeSynthesis
