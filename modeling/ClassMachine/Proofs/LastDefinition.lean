import ClassMachine.Proofs.Loaded
import Mathlib.Data.Finset.Card

/-!
# The last definition counts

What a loaded table gives for a key is the last method of that name and descriptor in the
last class of that name, and nothing else (`ClassTable.method?_load_iff`). Its id is the
number of methods that are declared before it, so no two methods share one
(`ClassTable.getElem?_of_method?`). Classes that are replaced are checked all the same: the
first method in order that does not pass is the one that is reported
(`ClassTable.load_eq_error_iff`).

A fold of insertions leaves what it does not name. So a fold is cut behind the last
element that names a key, and what that element has put there is found in the end.
-/

namespace ClassMachine

variable {α : Type} {P : α → Prop} {xs : List α} {owner name : String} {id : Nat}
  {wanted : String × String} {key key' : MethodKey} {method method' : LoadedMethod}
  {methods : List MethodCode} {classes front : List ClassCode} {m : MethodCode} {c : ClassCode}
  {t t' : ClassTable} {table table' : Table (String × String) LoadedMethod} {cause : FormatError}

/-! ## The last of a list -/

/-- The element behind `front` has the property, and no later one has it. -/
def IsLast (P : α → Prop) (xs front : List α) (x : α) : Prop :=
  ∃ behind, xs = front ++ x :: behind ∧ P x ∧ ∀ y ∈ behind, ¬ P y

theorem exists_isLast (occurs : ∃ x ∈ xs, P x) : ∃ front x, IsLast P xs front x := by
  induction xs with
  | nil =>
      obtain ⟨_, member, _⟩ := occurs
      cases member
  | cons x xs ih =>
      by_cases later : ∃ y ∈ xs, P y
      · obtain ⟨front, y, behind, rfl, holds, last⟩ := ih later
        exact ⟨x :: front, y, behind, rfl, holds, last⟩
      · obtain ⟨y, member, holds⟩ := occurs
        rcases List.mem_cons.1 member with rfl | member
        · exact ⟨[], y, xs, rfl, holds, fun z member holds => later ⟨z, member, holds⟩⟩
        · exact absurd ⟨y, member, holds⟩ later

/-! ## The methods of a class -/

namespace MethodCode

/-- The name and the descriptor under which the method is found. -/
def signature (m : MethodCode) : String × String :=
  (m.name, m.descriptor)

/-- What is reported about a method that may not be loaded. -/
inductive Rejected (owner : String) (m : MethodCode) : FormatError → Prop
  | notNormalized {index : Nat} {flaw : LoadFlaw} :
    ClassTable.methodFlaw? m = some (index, flaw) →
      Rejected owner m (.notNormalized owner m.name index flaw)
  | badDescriptor {cause : DescriptorError} :
    ClassTable.methodFlaw? m = none → Descriptor.parse m.descriptor = .error cause →
      Rejected owner m (.badDescriptor (owner ++ "." ++ m.name) cause)

end MethodCode

namespace ClassTable

theorem loadMethod_eq_error : loadMethod owner id m = .error cause ↔ m.Rejected owner cause := by
  constructor
  · intro failed
    unfold loadMethod at failed
    split at failed
    · rename_i flaw
      cases failed
      exact .notNormalized flaw
    · rename_i flawless
      split at failed
      · rename_i bad
        cases failed
        exact .badDescriptor flawless bad
      · cases failed
  · rintro (flaw | ⟨flawless, bad⟩)
    · rw [loadMethod, flaw]
    · rw [loadMethod, flawless, bad]

/-- Exactly the methods that do not pass the check are rejected. -/
theorem exists_rejected_iff : (∃ cause, m.Rejected owner cause) ↔ ¬ m.Checked := by
  constructor
  · rintro ⟨cause, rejected⟩ checked
    obtain ⟨descriptor, parsed⟩ := checked.descriptor
    have passes : loadMethod owner 0 m = .ok ⟨0, owner, m, descriptor⟩ :=
      loadMethod_eq_ok.2 ⟨checked, descriptor, parsed, rfl⟩
    cases passes.symm.trans (loadMethod_eq_error.2 rejected)
  · intro unchecked
    rcases loaded : loadMethod owner 0 m with cause | method
    · exact ⟨cause, loadMethod_eq_error.1 loaded⟩
    · exact absurd (loadMethod_eq_ok.1 loaded).1 unchecked

theorem loadMethods_append (xs ys : List MethodCode) :
    loadMethods owner id (xs ++ ys) table
      = loadMethods owner id xs table >>= loadMethods owner (id + xs.length) ys := by
  induction xs generalizing id table with
  | nil => rfl
  | cons m xs ih =>
      rw [List.cons_append, loadMethods, loadMethods, bind_assoc, List.length_cons]
      congr 1
      funext method
      rw [ih, Nat.add_assoc, Nat.add_comm 1]

/-- Methods leave what is found under other names and descriptors. -/
theorem find?_of_loadMethods (others : ∀ m ∈ methods, m.signature ≠ wanted)
    (loaded : loadMethods owner id methods table = .ok table') :
    table'.find? wanted = table.find? wanted := by
  induction methods generalizing id table with
  | nil =>
      cases loaded
      rfl
  | cons m methods ih =>
      obtain ⟨other, others⟩ := List.forall_mem_cons.1 others
      obtain ⟨method, _, later⟩ := bind_eq_ok.1 loaded
      rw [ih others later]
      exact Table.find?_insert_of_ne table method other.symm

/-- What the last method of a name and descriptor is loaded into is found. -/
theorem find?_of_isLast {before : List MethodCode}
    (last : IsLast (·.signature = wanted) methods before m)
    (loaded : loadMethods owner id methods table = .ok table') :
    ∃ method, loadMethod owner (id + before.length) m = .ok method ∧
      table'.find? wanted = some method := by
  obtain ⟨behind, rfl, rfl, others⟩ := last
  rw [loadMethods_append] at loaded
  obtain ⟨_, _, loaded⟩ := bind_eq_ok.1 loaded
  obtain ⟨method, here, later⟩ := bind_eq_ok.1 loaded
  refine ⟨method, here, ?_⟩
  rw [find?_of_loadMethods others later]
  exact Table.find?_insert_self _ _ _

theorem find?_loadMethods_iff (loaded : loadMethods owner id methods .empty = .ok table) :
    table.find? wanted = some method ↔
      ∃ before m, IsLast (·.signature = wanted) methods before m ∧
        loadMethod owner (id + before.length) m = .ok method := by
  constructor
  · intro found
    by_cases occurs : ∃ m ∈ methods, m.signature = wanted
    · obtain ⟨before, m, last⟩ := exists_isLast occurs
      obtain ⟨method', here, found'⟩ := find?_of_isLast last loaded
      cases found.symm.trans found'
      exact ⟨before, m, last, here⟩
    · have others : ∀ m ∈ methods, m.signature ≠ wanted :=
        fun m member same => occurs ⟨m, member, same⟩
      rw [find?_of_loadMethods others loaded, Table.find?_empty] at found
      cases found
  · rintro ⟨before, m, last, here⟩
    obtain ⟨method', here', found⟩ := find?_of_isLast last loaded
    cases here.symm.trans here'
    exact found

/-! ## The classes -/

/-- The number of methods that the classes declare, those that are replaced included. -/
def countMethods (classes : List ClassCode) : Nat :=
  (classes.flatMap (·.methods)).length

theorem load_append (xs ys : List ClassCode) : load (xs ++ ys) = load xs >>= ys.foldlM insert :=
  List.foldlM_append

theorem methodCount_load (loaded : load classes = .ok t) :
    t.methodCount = countMethods classes := by
  suffices ∀ s, classes.foldlM insert s = .ok t →
      t.methodCount = s.methodCount + countMethods classes by
    have counted := this empty loaded
    rwa [show empty.methodCount = 0 from rfl, Nat.zero_add] at counted
  clear loaded
  induction classes with
  | nil =>
      rintro s loaded
      cases loaded
      rfl
  | cons c classes ih =>
      intro s loaded
      rw [List.foldlM_cons] at loaded
      obtain ⟨s₁, first, later⟩ := bind_eq_ok.1 loaded
      obtain ⟨_, _, done⟩ := bind_eq_ok.1 first
      cases done
      rw [ih _ later, countMethods, countMethods, List.flatMap_cons, List.length_append,
        Nat.add_assoc]

/-- Classes leave what is found under other names. -/
theorem find?_of_foldlM (others : ∀ c ∈ classes, canonicalName c.name ≠ name)
    (loaded : classes.foldlM insert t = .ok t') : t'.classes.find? name = t.classes.find? name := by
  refine foldlM_invariant (I := fun s => s.classes.find? name = t.classes.find? name) rfl ?_ loaded
  intro c member s s' same inserted
  obtain ⟨methods, _, done⟩ := bind_eq_ok.1 inserted
  cases done
  exact (Table.find?_insert_of_ne s.classes _ (others c member).symm).trans same

/-- What the last class of a name is loaded into is found. -/
theorem find?_load_of_isLast (last : IsLast (canonicalName ·.name = name) classes front c)
    (loaded : load classes = .ok t) :
    ∃ methods, loadMethods name (countMethods front) c.methods .empty = .ok methods ∧
      t.classes.find? name = some ⟨name, canonicalName c.superName, methods⟩ := by
  obtain ⟨behind, rfl, rfl, others⟩ := last
  rw [load_append] at loaded
  obtain ⟨s, earlier, loaded⟩ := bind_eq_ok.1 loaded
  rw [List.foldlM_cons] at loaded
  obtain ⟨s', here, later⟩ := bind_eq_ok.1 loaded
  obtain ⟨methods, read, done⟩ := bind_eq_ok.1 here
  cases done
  rw [methodCount_load earlier] at read
  refine ⟨methods, read, ?_⟩
  rw [find?_of_foldlM others later]
  exact Table.find?_insert_self _ _ _

theorem exists_isLast_of_find? {found : LoadedClass} (loaded : load classes = .ok t)
    (there : t.classes.find? name = some found) :
    ∃ front c, IsLast (canonicalName ·.name = name) classes front c := by
  by_contra never
  have others : ∀ c ∈ classes, canonicalName c.name ≠ name :=
    fun c member same => never (exists_isLast ⟨c, member, same⟩)
  rw [find?_of_foldlM others loaded] at there
  cases there

/-- **A key gives the last method of its name and descriptor in the last class of its
name.** -/
theorem method?_load_iff (loaded : load classes = .ok t) :
    t.method? key = some method ↔
      ∃ front c, IsLast (canonicalName ·.name = key.owner) classes front c ∧
      ∃ before m, IsLast (·.signature = (key.name, key.descriptor)) c.methods before m ∧
      ∃ descriptor, Descriptor.parse m.descriptor = .ok descriptor ∧
        method = ⟨countMethods front + before.length, key.owner, m, descriptor⟩ := by
  constructor
  · intro found
    obtain ⟨found', there, found⟩ := Option.bind_eq_some_iff.1 found
    obtain ⟨front, c, lastClass⟩ := exists_isLast_of_find? loaded there
    obtain ⟨methods, read, there'⟩ := find?_load_of_isLast lastClass loaded
    cases there.symm.trans there'
    obtain ⟨before, m, last, here⟩ := (find?_loadMethods_iff read).1 found
    exact ⟨front, c, lastClass, before, m, last, (loadMethod_eq_ok.1 here).2⟩
  · rintro ⟨front, c, lastClass, before, m, last, descriptor, parsed, rfl⟩
    obtain ⟨methods, read, there⟩ := find?_load_of_isLast lastClass loaded
    obtain ⟨method', here, found⟩ := find?_of_isLast last read
    obtain ⟨_, descriptor', parsed', rfl⟩ := loadMethod_eq_ok.1 here
    cases parsed.symm.trans parsed'
    exact Option.bind_eq_some_iff.2 ⟨_, there, found⟩

/-! ## Ids -/

/-- The methods of all classes in order, each with the canonical name of its class. -/
def declarations (classes : List ClassCode) : List (String × MethodCode) :=
  classes.flatMap fun c => c.methods.map fun m => (canonicalName c.name, m)

theorem length_declarations (classes : List ClassCode) :
    (declarations classes).length = countMethods classes := by
  simp [declarations, countMethods, List.length_flatMap]

/-- The id of a method is its place among all methods that are declared. -/
theorem getElem?_of_method? (loaded : load classes = .ok t)
    (found : t.method? key = some method) :
    (declarations classes)[method.id]? = some (method.owner, method.code) := by
  obtain ⟨front, c, ⟨behind, rfl, name, _⟩, before, m, ⟨after, split, _⟩, descriptor, _, rfl⟩ :=
    (method?_load_iff loaded).1 found
  have placed : declarations (front ++ c :: behind) = declarations front
      ++ (before.map (canonicalName c.name, ·) ++ (canonicalName c.name, m)
        :: (after.map (canonicalName c.name, ·) ++ declarations behind)) := by
    simp [declarations, split]
  have front_length := length_declarations front
  have before_length : (before.map (canonicalName c.name, ·)).length = before.length :=
    List.length_map _
  rw [placed, ← front_length, ← before_length, List.getElem?_append_right (Nat.le_add_right _ _),
    Nat.add_sub_cancel_left, List.getElem?_append_right (le_refl _), Nat.sub_self, ← name]
  rfl

/-- Ids are not shared. -/
theorem eq_of_id_eq (loaded : load classes = .ok t) (found : t.method? key = some method)
    (found' : t.method? key' = some method') (same : method.id = method'.id) :
    method = method' := by
  have placed := getElem?_of_method? loaded found
  rw [same, getElem?_of_method? loaded found', Option.some_inj, Prod.mk.injEq] at placed
  obtain ⟨owner, code⟩ := placed
  have parsed := ((load_sound loaded).method found).1.descriptor
  rw [← code, ((load_sound loaded).method found').1.descriptor] at parsed
  cases method
  cases method'
  cases parsed
  cases owner
  cases code
  cases same
  rfl

theorem id_lt_of_method? (loaded : load classes = .ok t) (found : t.method? key = some method) :
    method.id < countMethods classes := by
  rw [← length_declarations]
  exact (List.getElem?_eq_some_iff.1 (getElem?_of_method? loaded found)).1

/-! ## The number of classes -/

/-- The names of the classes, each once. -/
def names (classes : List ClassCode) : Finset String :=
  (classes.map (canonicalName ·.name)).toFinset

theorem exists_find?_iff_mem_names (loaded : load classes = .ok t) :
    (∃ found, t.classes.find? name = some found) ↔ name ∈ names classes := by
  rw [names, List.mem_toFinset, List.mem_map]
  constructor
  · rintro ⟨found, there⟩
    obtain ⟨front, c, behind, rfl, named, _⟩ := exists_isLast_of_find? loaded there
    exact ⟨c, by simp, named⟩
  · intro named
    obtain ⟨front, c, last⟩ := exists_isLast named
    obtain ⟨methods, _, there⟩ := find?_load_of_isLast last loaded
    exact ⟨_, there⟩

theorem size_load (loaded : load classes = .ok t) : t.size = (names classes).card := by
  have keys : (t.classes.entries.map Prod.fst).toFinset = names classes := by
    ext name
    rw [← exists_find?_iff_mem_names loaded, List.mem_toFinset, Table.mem_keys_iff]
  rw [← keys, List.toFinset_card_of_nodup t.classes.distinct, List.length_map]
  rfl

/-! ## Failure -/

theorem loadMethods_eq_error_iff :
    loadMethods owner id methods table = .error cause ↔
      ∃ before m after, methods = before ++ m :: after ∧ (∀ m' ∈ before, m'.Checked) ∧
        m.Rejected owner cause := by
  constructor
  · intro failed
    induction methods generalizing id table with
    | nil => cases failed
    | cons m methods ih =>
        rcases bind_eq_error.1 failed with here | ⟨method, first, later⟩
        · exact ⟨[], m, methods, rfl, nofun, loadMethod_eq_error.1 here⟩
        · obtain ⟨before, m', after, rfl, checked, rejected⟩ := ih later
          have here := (loadMethod_eq_ok.1 first).1
          exact ⟨m :: before, m', after, rfl, List.forall_mem_cons.2 ⟨here, checked⟩, rejected⟩
  · rintro ⟨before, m, after, rfl, checked, rejected⟩
    obtain ⟨earlier, loaded⟩ : ∃ earlier, loadMethods owner id before table = .ok earlier :=
      loadMethods_isOk_iff.2 checked
    have fails : loadMethods owner (id + before.length) (m :: after) earlier = .error cause :=
      bind_eq_error.2 (Or.inl (loadMethod_eq_error.2 rejected))
    rw [loadMethods_append]
    exact bind_eq_error.2 (Or.inr ⟨earlier, loaded, fails⟩)

theorem insert_eq_error_iff :
    t.insert c = .error cause ↔
      ∃ before m after, c.methods = before ++ m :: after ∧ (∀ m' ∈ before, m'.Checked) ∧
        m.Rejected (canonicalName c.name) cause := by
  rw [insert, bind_eq_error]
  constructor
  · rintro (failed | ⟨_, _, done⟩)
    · exact loadMethods_eq_error_iff.1 failed
    · cases done
  · exact fun fails => Or.inl (loadMethods_eq_error_iff.2 fails)

/-- **The first method in order that does not pass the check is reported**, whether or not
its class is replaced later. -/
theorem load_eq_error_iff :
    load classes = .error cause ↔
      ∃ front c behind, classes = front ++ c :: behind ∧
        (∀ c' ∈ front, ∀ m ∈ c'.methods, m.Checked) ∧
        ∃ before m after, c.methods = before ++ m :: after ∧ (∀ m' ∈ before, m'.Checked) ∧
          m.Rejected (canonicalName c.name) cause := by
  rw [load, foldlM_eq_error_iff]
  constructor
  · rintro ⟨front, c, behind, s, split, folded, failed⟩
    exact ⟨front, c, behind, split, load_isOk_iff.1 ⟨s, folded⟩, insert_eq_error_iff.1 failed⟩
  · rintro ⟨front, c, behind, split, checked, failed⟩
    obtain ⟨s, folded⟩ := load_isOk_iff.2 checked
    exact ⟨front, c, behind, s, split, folded, insert_eq_error_iff.2 failed⟩

theorem load_isError_iff :
    (∃ cause, load classes = .error cause) ↔ ∃ c ∈ classes, ∃ m ∈ c.methods, ¬ m.Checked := by
  have total : (∃ cause, load classes = .error cause) ↔ ¬ ∃ t, load classes = .ok t := by
    cases load classes <;> simp
  rw [total, load_isOk_iff]
  simp only [not_forall, exists_prop]

/-! ## Loading as a whole -/

/-- Loading gives each key its last definition, each method an id of its own and each name
one class, or else reports the first method that may not be loaded. -/
theorem load_lastDefinition (classes : List ClassCode) :
    (∀ t, load classes = .ok t →
      (∀ key method, t.method? key = some method ↔
        ∃ front c, IsLast (canonicalName ·.name = key.owner) classes front c ∧
        ∃ before m, IsLast (·.signature = (key.name, key.descriptor)) c.methods before m ∧
        ∃ descriptor, Descriptor.parse m.descriptor = .ok descriptor ∧
          method = ⟨countMethods front + before.length, key.owner, m, descriptor⟩) ∧
      (∀ key key' method method', t.method? key = some method → t.method? key' = some method' →
        method ≠ method' → method.id ≠ method'.id) ∧
      (∀ key method, t.method? key = some method → method.id < countMethods classes) ∧
      t.size = (names classes).card) ∧
    ((∃ cause, load classes = .error cause) ↔ ∃ c ∈ classes, ∃ m ∈ c.methods, ¬ m.Checked) ∧
    ∀ cause, load classes = .error cause ↔
      ∃ front c behind, classes = front ++ c :: behind ∧
        (∀ c' ∈ front, ∀ m ∈ c'.methods, m.Checked) ∧
        ∃ before m after, c.methods = before ++ m :: after ∧ (∀ m' ∈ before, m'.Checked) ∧
          m.Rejected (canonicalName c.name) cause := by
  refine ⟨fun t loaded => ⟨fun _ _ => method?_load_iff loaded, ?_, ?_, size_load loaded⟩,
    load_isError_iff, fun _ => load_eq_error_iff⟩
  · intro key key' method method' found found' differ same
    exact differ (eq_of_id_eq loaded found found' same)
  · intro key method found
    exact id_lt_of_method? loaded found

/-- A static method of some length. -/
def returning (name : String) (length : Nat) : MethodCode where
  name
  descriptor := "()V"
  flags := .ofList [.accStatic]
  maxStack := 0
  maxLocals := 0
  argsSize := 0
  instructions := List.replicate length ⟨0, .returnVoid, [], none⟩

/-- A class of two methods. -/
def replaced : ClassCode :=
  ⟨"pack.Twice", rootClass, [returning "first" 1, returning "second" 1]⟩

/-- A class of the same name in another spelling, which declares a method twice. -/
def replacing : ClassCode :=
  ⟨"pack/Twice", rootClass, [returning "second" 2, returning "second" 3]⟩

/-- Three methods stand before the one that counts. -/
theorem replacing_lastDefinition :
    ∃ t, load [replaced, replacing] = .ok t ∧ t.size = 1 ∧
      t.method? ⟨"pack/Twice", "second", "()V"⟩
        = some ⟨3, "pack/Twice", returning "second" 3, ⟨[], .void⟩⟩ := by
  obtain ⟨t, loaded⟩ : ∃ t, load [replaced, replacing] = .ok t := ⟨_, rfl⟩
  obtain ⟨finds, _, _, size⟩ := (load_lastDefinition [replaced, replacing]).1 t loaded
  have lastClass : IsLast (canonicalName ·.name = "pack/Twice") [replaced, replacing] [replaced]
      replacing := ⟨[], rfl, by decide, nofun⟩
  have lastMethod : IsLast (·.signature = ("second", "()V")) replacing.methods
      [returning "second" 2] (returning "second" 3) := ⟨[], rfl, rfl, nofun⟩
  exact ⟨t, loaded, size.trans (by decide), (finds _ _).2
    ⟨_, _, lastClass, _, _, lastMethod, ⟨[], .void⟩, rfl, rfl⟩⟩

end ClassTable

end ClassMachine
