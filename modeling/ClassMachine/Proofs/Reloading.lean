import ClassMachine.Proofs.Loaded
import ClassMachine.Proofs.Recoding

/-!
# Loading other code

Loading goes through classes and methods in order. Where two lists of classes have
the same names in the same places, and in the place of each method the same one in
other code, the tables they load into hold the same methods in other code
(`ClassTable.load_recodes`). Methods of the keys that are exempt need not be alike.
-/

namespace ClassMachine

variable {r : Recoding} {exempt : MethodKey → Prop} {owner : String} {t t' u u' : ClassTable}

/-- The other method stands for this one. -/
structure MethodCode.Recodes (r : Recoding) (exempt : MethodKey → Prop) (owner : String)
    (m m' : MethodCode) : Prop where
  name : m'.name = m.name
  descriptor : m'.descriptor = m.descriptor
  code : ¬ exempt ⟨owner, m.name, m.descriptor⟩ → m' = r.code m

/-- The methods of the other class stand for those of this one, in their order. -/
structure ClassCode.Recodes (r : Recoding) (exempt : MethodKey → Prop) (c c' : ClassCode) :
    Prop where
  name : canonicalName c'.name = canonicalName c.name
  methods :
    List.Forall₂ (MethodCode.Recodes r exempt (canonicalName c.name)) c.methods c'.methods

/-! ## Tables -/

namespace ClassTable

theorem loadMethods_recodes {id : Nat} {codes codes' : List MethodCode}
    {methods methods' loaded loaded' : Table (String × String) LoadedMethod}
    (alike : List.Forall₂ (MethodCode.Recodes r exempt owner) codes codes')
    (start : r.Methods exempt owner methods methods')
    (first : loadMethods owner id codes methods = .ok loaded)
    (second : loadMethods owner id codes' methods' = .ok loaded') :
    r.Methods exempt owner loaded loaded' := by
  induction alike generalizing id methods methods' with
  | nil =>
      cases first
      cases second
      exact start
  | @cons m m' codes codes' head alike ih =>
      obtain ⟨method, read, first⟩ := bind_eq_ok.1 first
      obtain ⟨method', read', second⟩ := bind_eq_ok.1 second
      obtain ⟨-, descriptor, parsed, rfl⟩ := loadMethod_eq_ok.1 read
      obtain ⟨-, descriptor', parsed', rfl⟩ := loadMethod_eq_ok.1 read'
      rw [head.descriptor, parsed] at parsed'
      cases parsed'
      refine ih (fun name descriptor held => ?_) first second
      rw [head.name, head.descriptor]
      -- A method of the same key replaces the earlier one, and it does so in both tables.
      by_cases same : (name, descriptor) = (m.name, m.descriptor)
      · cases same
        rw [Table.find?_insert_self, Table.find?_insert_self, head.code held]
        rfl
      · rw [Table.find?_insert_of_ne _ _ same, Table.find?_insert_of_ne _ _ same]
        exact start name descriptor held

theorem insert_recodes {c c' : ClassCode} (tables : t.Recodes r exempt t')
    (alike : c.Recodes r exempt c') (first : t.insert c = .ok u)
    (second : t'.insert c' = .ok u') : u.Recodes r exempt u' := by
  obtain ⟨methods, loaded, done⟩ := bind_eq_ok.1 first
  obtain ⟨methods', loaded', done'⟩ := bind_eq_ok.1 second
  cases done
  cases done'
  rw [tables.count, alike.name] at loaded'
  have members : r.Methods exempt (canonicalName c.name) methods methods' :=
    loadMethods_recodes alike.methods (fun _ _ _ => rfl) loaded loaded'
  refine ⟨?_, fun owner => ?_⟩
  · change t'.methodCount + c'.methods.length = t.methodCount + c.methods.length
    rw [tables.count, alike.methods.length_eq]
  · change Option.Rel _ ((t.classes.insert _ _).find? owner) ((t'.classes.insert _ _).find? owner)
    rw [alike.name]
    by_cases same : owner = canonicalName c.name
    · rw [same, Table.find?_insert_self, Table.find?_insert_self]
      exact .some members
    · rw [Table.find?_insert_of_ne _ _ same, Table.find?_insert_of_ne _ _ same]
      exact tables.classes owner

/-- **Classes in other code load into a table in other code.** -/
theorem load_recodes {classes classes' : List ClassCode}
    (alike : List.Forall₂ (ClassCode.Recodes r exempt) classes classes')
    (first : load classes = .ok t) (second : load classes' = .ok t') :
    t.Recodes r exempt t' := by
  suffices ∀ u u', u.Recodes r exempt u' → classes.foldlM insert u = .ok t →
      classes'.foldlM insert u' = .ok t' → t.Recodes r exempt t' from
    this empty empty ⟨rfl, fun _ => .none⟩ first second
  clear first second
  induction alike with
  | nil =>
      intro u u' tables first second
      cases first
      cases second
      exact tables
  | @cons c c' classes classes' head alike ih =>
      intro u u' tables first second
      rw [List.foldlM_cons] at first second
      obtain ⟨v, inserted, first⟩ := bind_eq_ok.1 first
      obtain ⟨v', inserted', second⟩ := bind_eq_ok.1 second
      exact ih v v' (insert_recodes tables head inserted inserted') first second

end ClassTable

end ClassMachine
