import ClassMachine.Proofs.Idempotence
import ClassMachine.Proofs.Initialization
import ClassMachine.Proofs.Symbols

/-!
# Spellings of class names

The host reaches static fields under any spelling of their class, and methods are found
under any spelling. But a program uses static fields, and records initializers, under
the name that its operands spell. So a class has one set of static fields and one
initializer only where these names are canonical (`Progress.Lives.spelling`), as they
are in all classes that come from listings (`ClassCode.canonical_of_readListing`).
-/

namespace ClassMachine

variable {ω : Type} {m m' : Machine ω} {f : Frame} {p q : Progress ω}
  {insn : Instruction} {className text name owner : String} {c : ClassCode}
  {classes : List ClassCode} {table : ClassTable}
  {allowed : Machine ω → HostAction ω → Prop}

/-! ## Static fields and the record -/

namespace Machine

/-- The static fields that the program uses under that spelling of a class are those
that the host reaches under every spelling of it. -/
def SharesFields (m : Machine ω) (f : Frame) (owner : String) : Prop :=
  ∀ className field descriptor value, canonicalName className = canonicalName owner →
    (m.use f (.putStatic ⟨owner, field, descriptor⟩ value)).1.static? className field
      = some value ∧
    ((m.setStatic className field value).use f (.getStatic ⟨owner, field, descriptor⟩)).2
      = f.push value

theorem sharesFields_iff : m.SharesFields f owner ↔ canonicalName owner = owner := by
  constructor
  · intro shares
    by_contra other
    -- What the host reads is older than the write, so it cannot depend on what was written.
    have untouched (value : Value) : m.static? owner "" = some value := by
      obtain ⟨written, _⟩ := shares owner "" "I" value rfl
      have apart : (canonicalName owner, "") ≠ (owner, "") :=
        fun same => other (congrArg Prod.fst same)
      change (m.statics.insert (owner, "") value).find? (canonicalName owner, "") = _ at written
      rwa [Table.find?_insert_of_ne _ _ apart] at written
    cases (untouched (.int 0)).symm.trans (untouched (.int 1))
  · intro canonical className field descriptor value same
    rw [canonical] at same
    constructor
    · change (m.statics.insert (owner, field) value).find? (canonicalName className, field) = _
      rw [same, Table.find?_insert_self]
    · change f.push (((m.statics.insert (canonicalName className, field) value).find?
        (owner, field)).getD _) = _
      rw [same, Table.find?_insert_self]
      rfl

/-- A class that has been made ready under one spelling is made ready again under every
other one. -/
theorem opens_of_touch {initializer : Option LoadedMethod}
    (touch : m.touch owner = .ok (m', initializer)) (name : String) :
    m'.Opens name ↔ name ≠ owner ∧ m.Opens name := by
  have touched := m.touch_touched owner
  rw [touch] at touched
  cases touched with
  | ready unfailed why =>
      refine ⟨fun opens => ⟨?_, opens⟩, And.right⟩
      rintro rfl
      obtain ⟨_, unstarted, c, _, found, _⟩ := opens_iff.1 opens
      rcases why with started | missing
      · exact unstarted started
      · cases missing.symm.trans found
  | noted =>
      have noted : name ∉ (m.note owner).started ↔ name ≠ owner ∧ name ∉ m.started :=
        List.mem_cons.not.trans not_or
      rw [opens_iff, opens_iff, noted]
      constructor
      · rintro ⟨unfailed, ⟨other, unstarted⟩, found⟩
        exact ⟨other, unfailed, unstarted, found⟩
      · rintro ⟨other, unfailed, unstarted, found⟩
        exact ⟨unfailed, ⟨other, unstarted⟩, found⟩

end Machine

/-! ## Canonical code -/

/-- The instruction spells the class that it makes ready in canonical form. -/
def Instruction.Canonical (insn : Instruction) : Prop :=
  ∀ name ∈ insn.touched?, canonicalName name = name

def ClassCode.Canonical (c : ClassCode) : Prop :=
  ∀ m ∈ c.methods, ∀ insn ∈ m.instructions, insn.Canonical

namespace Comment

theorem canonical_memberIn? {member? : List Char → Option (List Char × List Char)}
    {cs : List Char} {ref : MemberRef} (canonical : canonicalName className = className)
    (read : memberIn? className member? cs = some ref) : canonicalName ref.owner = ref.owner := by
  unfold memberIn? at read
  split at read
  · rename_i owner _ _ _
    split at read
    · cases read
    · cases read
      exact canonicalName_canonicalName _
  · obtain ⟨_, _, rfl⟩ := Option.map_eq_some_iff.1 read
    exact canonical

theorem canonical_fieldRef? {ref : MemberRef} (canonical : canonicalName className = className)
    (read : fieldRef? className text = some ref) : canonicalName ref.owner = ref.owner := by
  unfold fieldRef? memberBehind? at read
  obtain ⟨rest, _, read⟩ := Option.bind_eq_some_iff.1 read
  dsimp only at read
  split at read
  · cases read
  · exact canonical_memberIn? canonical read
  · rcases Option.or_eq_some_iff.1 read with read | ⟨_, read⟩
    · exact canonical_memberIn? canonical read
    · exact canonical_memberIn? canonical read

theorem canonical_className? (read : className? text = some name) : canonicalName name = name := by
  unfold className? at read
  obtain ⟨rest, _, read⟩ := Option.bind_eq_some_iff.1 read
  dsimp only at read
  split at read
  · cases read
  · cases read
    exact canonicalName_canonicalName _

end Comment

theorem Instruction.canonical_of_explained (canonical : canonicalName className = className)
    (explained : ∀ operand ∈ insn.operands, operand.Explained className insn.comment) :
    insn.Canonical := by
  -- Symbols are not bare, so a comment spells each of them.
  have spelled {operand : Operand} (first : insn.operand? 0 = some operand)
      (symbol : operand.isBare = false) : ∃ text, operand.SpelledBy className text := by
    rcases explained operand (List.mem_of_getElem? first) with bare | ⟨text, _, spelled⟩
    · cases symbol.symm.trans bare
    · exact ⟨text, spelled⟩
  intro name touches
  unfold touched? at touches
  split at touches
  · rename_i ref _ first
    cases touches
    obtain ⟨text, spelled⟩ := spelled first rfl
    cases spelled with
    | field read => exact Comment.canonical_fieldRef? canonical read
  · rename_i ref _ first
    cases touches
    obtain ⟨text, spelled⟩ := spelled first rfl
    cases spelled with
    | field read => exact Comment.canonical_fieldRef? canonical read
  · rename_i first
    cases touches
    obtain ⟨text, spelled⟩ := spelled first rfl
    cases spelled with
    | classRef read => exact Comment.canonical_className? read
  · cases touches
    exact canonicalName_canonicalName _
  · cases touches

/-- The classes of listings spell all names in canonical form. -/
theorem ClassCode.canonical_of_readListing (read : readListing text = .ok c) : c.Canonical := by
  obtain ⟨scanned, _, normal⟩ := bind_eq_ok.1 read
  have canonical : canonicalName c.name = c.name := by
    rw [(ClassCode.normalize_eq_ok_iff.1 normal).1, canonicalName_canonicalName]
  intro m member insn inside
  exact Instruction.canonical_of_explained canonical
    (explained_of_readListing read m member insn inside)

/-! ## Lifetimes -/

/-- Every method of the table is in canonical code. -/
def ClassTable.Canonical (t : ClassTable) : Prop :=
  t.Each fun _ method => ∀ insn ∈ method.code.instructions, insn.Canonical

theorem ClassTable.load_canonical (canonical : ∀ c ∈ classes, c.Canonical)
    (loaded : load classes = .ok table) : table.Canonical := by
  refine load_each (fun c member m inside id method first => ?_) loaded
  obtain ⟨_, _, _, rfl⟩ := loadMethod_eq_ok.1 first
  exact canonical c member m inside

/-- A frame asks for classes as its code spells them. -/
theorem Machine.AsksAt.canonical (asks : m.AsksAt f name)
    (spelled : ∀ insn ∈ f.method.code.instructions, insn.Canonical) :
    canonicalName name = name := by
  cases asks with
  | use current room done =>
      cases Instruction.execute_effects done with
      | touch _ touches => exact spelled _ (List.mem_of_getElem? current) name touches
  | call current room done static unbridged found owner =>
      cases Instruction.execute_effects done with
      | call _ _ _ key =>
          rw [← owner, key]
          exact canonicalName_canonicalName _

namespace Progress

/-- In canonical code every class is asked for by its canonical name. -/
theorem Asks.canonical (asks : p.Asks name q) (canonical : p.machine.classes.Canonical)
    (linked : p.Linked) : canonicalName name = name := by
  cases asks with
  | @step m f link asks =>
      obtain ⟨key, found⟩ := (linked : link.Linked m.classes f.method).has
      exact asks.canonical (canonical.method found)
  | call _ _ _ same =>
      rw [← same]
      exact canonicalName_canonicalName _

variable {limits : Limits} {world : ω}

/-- **Static fields and initializers go by the name that is spelled.** At every moment
of a lifetime:

* the program shares the static fields of a class with the host exactly if it spells
  the class in canonical form;
* a class that is made ready under one spelling stays as it was under every other.

So if all classes come from listings, or are spelled in canonical form, then the program
shares the static fields of every class that it asks for, and a class that has begun
its initializer under one spelling never begins it under any. -/
theorem Lives.spelling (loaded : ClassTable.load classes = .ok table)
    (lives : (fresh table limits world).Lives allowed p) :
    (∀ f owner, p.machine.SharesFields f owner ↔ canonicalName owner = owner) ∧
    (∀ owner m' initializer, p.machine.touch owner = .ok (m', initializer) →
      ∀ name, m'.Opens name ↔ name ≠ owner ∧ p.machine.Opens name) ∧
    ((∀ c ∈ classes, c.Canonical ∨ ∃ text, readListing text = .ok c) →
      (∀ name q, p.Asks name q → ∀ f, p.machine.SharesFields f name) ∧
      ∀ q, p.Next allowed q → ∀ r, q.Lives allowed r → ∀ name other r',
        p.Begins name q → canonicalName other = canonicalName name → ¬ r.Begins other r') := by
  refine ⟨fun f owner => Machine.sharesFields_iff, fun owner m' initializer =>
    Machine.opens_of_touch, fun sources => ?_⟩
  have spelled : ∀ c ∈ classes, c.Canonical := by
    intro c member
    rcases sources c member with canonical | ⟨text, read⟩
    · exact canonical
    · exact ClassCode.canonical_of_readListing read
  have asked {q r : Progress ω} {name : String} (lives : (fresh table limits world).Lives allowed q)
      (asks : q.Asks name r) : canonicalName name = name := by
    have linked : (fresh table limits world).Linked := trivial
    have canonical : q.machine.classes.Canonical := by
      rw [lives.classes linked]
      exact ClassTable.load_canonical spelled loaded
    exact asks.canonical canonical (lives.linked linked)
  refine ⟨fun name q asks f => Machine.sharesFields_iff.2 (asked lives asks), ?_⟩
  intro q next r later name other r' begins same again
  have here : canonicalName name = name := asked lives begins.1
  have there : canonicalName other = other := asked ((lives.tail next).trans later) again.1
  rw [here, there] at same
  have started : other ∈ r.machine.started := same ▸ later.grows.started begins.started.2
  exact again.started.1 started

end Progress

/-- A class whose initializer counts how often it runs. Its method gives ten times that
number, and a field that it has set under another spelling. -/
def respelledClass (owner : String) : ClassCode where
  name := "a/B"
  superName := rootClass
  methods :=
    [staticCode "<clinit>"
      [⟨0, .getStatic, [.field ⟨"a/B", "n", "I"⟩], none⟩, ⟨3, .iconst, [.int 1], none⟩,
        ⟨4, .binary .add, [], none⟩, ⟨5, .putStatic, [.field ⟨"a/B", "n", "I"⟩], none⟩,
        ⟨8, .returnVoid, [], none⟩],
      { name := "run"
        descriptor := "()I"
        flags := .ofList [.accStatic]
        maxStack := 3
        maxLocals := 0
        argsSize := 0
        instructions :=
          [⟨0, .bipush, [.int 5], none⟩, ⟨2, .putStatic, [.field ⟨owner, "x", "I"⟩], none⟩,
            ⟨5, .getStatic, [.field ⟨"a/B", "x", "I"⟩], none⟩,
            ⟨8, .getStatic, [.field ⟨"a/B", "n", "I"⟩], none⟩, ⟨11, .bipush, [.int 10], none⟩,
            ⟨13, .binary .mul, [], none⟩, ⟨14, .binary .add, [], none⟩,
            ⟨15, .returnValue .int, [], none⟩] }]

/-- The class alone. -/
def respelledTable (owner : String) : ClassTable :=
  (ClassTable.load [respelledClass owner]).toOption.getD .empty

/-- Spelled in canonical form, it never begins its initializer again. -/
theorem canonical_spelling :
    ∃ q, (Progress.fresh (respelledTable "a/B") {} ()).Begins "a/B" q ∧
      ∀ r, q.Lives (fun _ _ => True) r → ∀ other r', canonicalName other = "a/B" →
        ¬ r.Begins other r' := by
  let call : HostAction Unit := .call "a/B" "run" "()I" []
  let q := call.act (.create (respelledTable "a/B") {} ())
  have loaded : ClassTable.load [respelledClass "a/B"] = .ok (respelledTable "a/B") := rfl
  have canonical : (respelledClass "a/B").Canonical := by
    unfold ClassCode.Canonical Instruction.Canonical
    decide
  have next : (Progress.fresh (respelledTable "a/B") {} ()).Next (fun _ _ => True) q :=
    .act (.ok none) trivial
  have asks : (Progress.fresh (respelledTable "a/B") {} ()).Asks "a/B"
      ((Machine.create (respelledTable "a/B") {} ()).start "a/B" "run" "()I" []) :=
    .call rfl rfl rfl rfl
  have begins : (Progress.fresh (respelledTable "a/B") {} ()).Begins "a/B" q :=
    ⟨asks, _, _, rfl⟩
  have alone : ∀ c ∈ [respelledClass "a/B"], c.Canonical ∨ ∃ text, readListing text = .ok c :=
    List.forall_mem_singleton.2 (Or.inl canonical)
  refine ⟨q, begins, fun r later other r' same => ?_⟩
  exact ((Progress.Lives.spelling loaded .refl).2.2 alone).2 q next r later "a/B" other r' begins
    same

/-- Spelled with a dot, it is set elsewhere, and begins its initializer twice. -/
theorem dotted_runs_apart :
    (∃ m, ((Machine.create (respelledTable "a/B") {} ()).start "a/B" "run" "()I" []).run 13 =
      .finished m (.ok (some (.int 15)))) ∧
    ∃ m, ((Machine.create (respelledTable "a.B") {} ()).start "a/B" "run" "()I" []).run 18 =
      .finished m (.ok (some (.int 20))) :=
  ⟨⟨_, rfl⟩, ⟨_, rfl⟩⟩

end ClassMachine
