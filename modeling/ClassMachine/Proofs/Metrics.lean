import Mathlib.Data.List.Nodup
import Mathlib.Data.List.Perm.Basic
import ClassMachine.Listing.Scan
import ClassMachine.Proofs.Outcome

/-!
# Metric lines are read when they are complete

A metric line gives its three numbers if and only if its fields are the three metrics, in
any order, each with a number of 16 bits (`readMetrics_eq_ok_iff`). Otherwise the first
field in the order of the line that may not stand behind the ones before it is reported,
and if every field may stand where it does, the first metric that is missing
(`readMetrics_eq_error_iff`).

The reading of fields is followed by what it knows of them (`Metrics.Holds`): the fields
so far are good, and each metric has the value of the field with its key.
-/

namespace ClassMachine.Listing

open Text

variable {metrics metrics' : Metrics} {key value field : List Char}
  {fields front : List (List Char)} {number : Nat} {size : FrameSize} {cause : FormatError}

/-! ## Fields -/

/-- The metrics, in the order in which a missing one is reported. -/
def metricKeys : List (List Char) :=
  ["stack".toList, "locals".toList, "args_size".toList]

/-- The key of a field. -/
def metricKey (field : List Char) : List Char :=
  (metricParts field).1

/-- Fields that may stand on a line together: each is a metric with a number of 16 bits,
and none comes twice. -/
structure GoodFields (fields : List (List Char)) : Prop where
  known : ∀ field ∈ fields, metricKey field ∈ metricKeys
  distinct : (fields.map metricKey).Nodup
  numbers : ∀ field ∈ fields, ∃ n, metricValue? (metricParts field).2 = some n

/-- Why a field may not stand behind others. -/
inductive BadField (front : List (List Char)) (field : List Char) : Prop
  | unknown : metricKey field ∉ metricKeys → BadField front field
  | repeated : metricKey field ∈ front.map metricKey → BadField front field
  | notNumber : metricValue? (metricParts field).2 = none → BadField front field

/-- The first field that may not stand where it does. -/
def FirstBad (fields : List (List Char)) (field : List Char) : Prop :=
  ∃ front behind, fields = front ++ field :: behind ∧ GoodFields front ∧ BadField front field

/-- What is reported about a field. -/
def fieldError (number : Nat) (field : List Char) : FormatError :=
  .badMetric number (String.ofList (metricKey field)) (String.ofList (metricParts field).2)

/-- The first metric without a field. -/
def firstMissing? (fields : List (List Char)) : Option (List Char) :=
  metricKeys.find? fun key => key ∉ fields.map metricKey

/-- The fields are the three metrics in some order, with these numbers. -/
def Complete (fields : List (List Char)) (size : FrameSize) : Prop :=
  ∃ stack locals argsSize, (fields.map metricParts).Perm
      [("stack".toList, stack), ("locals".toList, locals), ("args_size".toList, argsSize)] ∧
    metricValue? stack = some size.maxStack ∧ metricValue? locals = some size.maxLocals ∧
    metricValue? argsSize = some size.argsSize

theorem goodFields_nil : GoodFields [] :=
  ⟨nofun, List.nodup_nil, nofun⟩

/-- A field may stand behind good ones or is a bad one. -/
theorem GoodFields.append_singleton_iff (good : GoodFields front) :
    GoodFields (front ++ [field]) ↔ ¬ BadField front field := by
  have last : field ∈ front ++ [field] := List.mem_append_right _ List.mem_cons_self
  constructor
  · rintro ⟨known, distinct, numbers⟩ (unknown | repeated | notNumber)
    · exact unknown (known field last)
    · rw [List.map_append, List.nodup_append] at distinct
      exact distinct.2.2 _ repeated _ (List.mem_map_of_mem List.mem_cons_self) rfl
    · obtain ⟨n, number⟩ := numbers field last
      rw [notNumber] at number
      cases number
  · intro notBad
    refine ⟨List.forall_mem_append.2 ⟨good.known, ?_⟩, ?_,
      List.forall_mem_append.2 ⟨good.numbers, ?_⟩⟩
    · rw [List.forall_mem_singleton]
      exact not_not.1 fun unknown => notBad (.unknown unknown)
    · rw [List.map_append, List.map_singleton, List.nodup_append_comm, List.singleton_append,
        List.nodup_cons]
      exact ⟨fun repeated => notBad (.repeated repeated), good.distinct⟩
    · rw [List.forall_mem_singleton, ← Option.isSome_iff_exists, ← Option.ne_none_iff_isSome]
      exact fun notNumber => notBad (.notNumber notNumber)

theorem GoodFields.of_append {behind : List (List Char)} (good : GoodFields (front ++ behind)) :
    GoodFields front := by
  refine ⟨fun field member => good.known field (List.mem_append_left _ member), ?_,
    fun field member => good.numbers field (List.mem_append_left _ member)⟩
  have distinct := good.distinct
  rw [List.map_append, List.nodup_append] at distinct
  exact distinct.1

/-- Good fields have no bad one among them. -/
theorem GoodFields.not_firstBad (good : GoodFields fields) : ¬ FirstBad fields field := by
  rintro ⟨front, behind, rfl, goodFront, bad⟩
  rw [List.append_cons] at good
  exact goodFront.append_singleton_iff.1 good.of_append bad

/-! ## What is known of the fields that have been read -/

/-- The value of a metric, if it has been read. -/
def Metrics.get? (metrics : Metrics) (key : List Char) : Option UInt16 :=
  if key = "stack".toList then metrics.stack
  else if key = "locals".toList then metrics.locals
  else if key = "args_size".toList then metrics.argsSize
  else none

/-- The fields are good, and they are what has been read. -/
structure Metrics.Holds (metrics : Metrics) (fields : List (List Char)) : Prop where
  good : GoodFields fields
  get?_iff : ∀ key n, metrics.get? key = some n ↔
    ∃ field ∈ fields, metricKey field = key ∧ metricValue? (metricParts field).2 = some n

theorem Metrics.holds_nil : Metrics.Holds {} [] := by
  refine ⟨goodFields_nil, fun key n => ⟨fun found => ?_, nofun⟩⟩
  have nothing : Metrics.get? {} key = none := by
    unfold get?
    split_ifs <;> rfl
  rw [nothing] at found
  cases found

/-- A metric has a value if there is a field of it. -/
theorem Metrics.Holds.ne_none_iff (holds : metrics.Holds fields) :
    metrics.get? key ≠ none ↔ key ∈ fields.map metricKey := by
  rw [Option.ne_none_iff_exists', List.mem_map]
  constructor
  · rintro ⟨n, found⟩
    obtain ⟨field, member, named, _⟩ := (holds.get?_iff key n).1 found
    exact ⟨field, member, named⟩
  · rintro ⟨field, member, named⟩
    obtain ⟨n, number⟩ := holds.good.numbers field member
    exact ⟨n, (holds.get?_iff key n).2 ⟨field, member, named, number⟩⟩

/-- A field is taken unless its key is unknown, its key has a value already or its value
is no number. -/
theorem Metrics.set?_eq_none_iff : metrics.set? key value = none ↔
    key ∉ metricKeys ∨ metrics.get? key ≠ none ∨ metricValue? value = none := by
  unfold set? get? metricKeys
  -- The texts of the keys play no part, and are slow to compare.
  generalize "stack".toList = stack, "locals".toList = locals, "args_size".toList = argsSize
  cases metricValue? value with
  | none => simp
  | some n =>
      simp only [Option.bind_eq_bind, Option.bind_some]
      split_ifs <;> simp_all [Option.isSome_iff_ne_none]

/-- A field that is taken changes the value of its own key. -/
theorem Metrics.get?_of_set? (taken : metrics.set? key value = some metrics') :
    ∃ n, metricValue? value = some n ∧
      ∀ other, metrics'.get? other = if other = key then some n else metrics.get? other := by
  obtain ⟨n, number, taken⟩ := Option.bind_eq_some_iff.1 taken
  refine ⟨n, number, fun other => ?_⟩
  have distinct : metricKeys.Nodup := by decide
  unfold metricKeys at distinct
  unfold get?
  generalize "stack".toList = stack, "locals".toList = locals, "args_size".toList = argsSize
    at distinct taken ⊢
  simp only [List.nodup_cons, List.mem_cons, List.not_mem_nil, or_false, not_or] at distinct
  obtain ⟨⟨locals_ne, argsSize_ne⟩, argsSize_ne', -⟩ := distinct
  split_ifs at taken <;> cases taken <;> split_ifs <;> simp_all

/-- A field that is taken is one more that has been read. -/
theorem Metrics.Holds.set? (holds : metrics.Holds front)
    (taken : metrics.set? (metricKey field) (metricParts field).2 = some metrics') :
    metrics'.Holds (front ++ [field]) := by
  have fits : ¬ BadField front field := by
    intro bad
    have refused : metrics.set? (metricKey field) (metricParts field).2 = none := by
      rw [set?_eq_none_iff]
      cases bad with
      | unknown unknown => exact Or.inl unknown
      | repeated repeated => exact Or.inr (Or.inl (holds.ne_none_iff.2 repeated))
      | notNumber notNumber => exact Or.inr (Or.inr notNumber)
    rw [taken] at refused
    cases refused
  obtain ⟨n, number, values⟩ := get?_of_set? taken
  refine ⟨holds.good.append_singleton_iff.2 fits, fun key value => ?_⟩
  rw [values]
  split
  · rename_i own
    subst own
    constructor
    · rintro ⟨⟩
      exact ⟨field, List.mem_append_right _ List.mem_cons_self, rfl, number⟩
    · rintro ⟨field', member, named, number'⟩
      rcases List.mem_append.1 member with earlier | last
      · exact absurd (.repeated (List.mem_map.2 ⟨field', earlier, named⟩)) fits
      · rw [List.mem_singleton.1 last, number] at number'
        exact number'
  · rename_i other
    rw [holds.get?_iff]
    constructor
    · rintro ⟨field', member, found⟩
      exact ⟨field', List.mem_append_left _ member, found⟩
    · rintro ⟨field', member, named, found⟩
      rcases List.mem_append.1 member with earlier | last
      · exact ⟨field', earlier, named, found⟩
      · rw [List.mem_singleton.1 last] at named
        exact absurd named.symm other

theorem Metrics.Holds.badField_of_set? (holds : metrics.Holds front)
    (refused : metrics.set? (metricKey field) (metricParts field).2 = none) :
    BadField front field := by
  rcases set?_eq_none_iff.1 refused with unknown | repeated | notNumber
  · exact .unknown unknown
  · exact .repeated (holds.ne_none_iff.1 repeated)
  · exact .notNumber notNumber

/-! ## The whole line -/

theorem Metrics.readFields_cons (metrics : Metrics) (number : Nat) (field : List Char)
    (fields : List (List Char)) : metrics.readFields number (field :: fields)
      = match metrics.set? (metricKey field) (metricParts field).2 with
        | some metrics => metrics.readFields number fields
        | none => .error (fieldError number field) :=
  rfl

/-- Reading goes on to the end, or stops at the first bad field. -/
theorem Metrics.Holds.readFields (holds : metrics.Holds front) (number : Nat)
    (fields : List (List Char)) :
    (∃ metrics', metrics.readFields number fields = .ok metrics' ∧
      metrics'.Holds (front ++ fields)) ∨
    ∃ before field behind, fields = before ++ field :: behind ∧ GoodFields (front ++ before) ∧
      BadField (front ++ before) field ∧
      metrics.readFields number fields = .error (fieldError number field) := by
  induction fields generalizing metrics front with
  | nil => exact Or.inl ⟨metrics, rfl, by rwa [List.append_nil]⟩
  | cons field fields ih =>
      rw [Metrics.readFields_cons]
      cases taken : metrics.set? (metricKey field) (metricParts field).2 with
      | none =>
          right
          refine ⟨[], field, fields, rfl, ?_, ?_, rfl⟩
          · rw [List.append_nil]
            exact holds.good
          · rw [List.append_nil]
            exact holds.badField_of_set? taken
      | some metrics₁ =>
          have holds₁ := holds.set? taken
          rcases ih holds₁ with ⟨metrics', read, holds'⟩ |
            ⟨before, field', behind, rfl, good, bad, refused⟩
          · rw [← List.append_cons] at holds'
            exact Or.inl ⟨metrics', read, holds'⟩
          · rw [← List.append_cons] at good bad
            exact Or.inr ⟨field :: before, field', behind, rfl, good, bad, refused⟩

/-- Either all fields are read, or the first bad one is reported. -/
theorem readFields_cases (number : Nat) (fields : List (List Char)) :
    (∃ metrics, Metrics.readFields number {} fields = .ok metrics ∧ metrics.Holds fields) ∨
    ∃ field, FirstBad fields field ∧
      Metrics.readFields number {} fields = .error (fieldError number field) := by
  rcases Metrics.holds_nil.readFields number fields with read |
    ⟨before, field, behind, split, good, bad, refused⟩
  · exact Or.inl read
  · exact Or.inr ⟨field, ⟨before, behind, split, good, bad⟩, refused⟩

theorem Metrics.complete_eq_ok_iff : metrics.complete number = .ok size ↔
    metrics.get? "stack".toList = some size.maxStack ∧
    metrics.get? "locals".toList = some size.maxLocals ∧
    metrics.get? "args_size".toList = some size.argsSize := by
  have stack : metrics.get? "stack".toList = metrics.stack := rfl
  have locals : metrics.get? "locals".toList = metrics.locals := rfl
  have argsSize : metrics.get? "args_size".toList = metrics.argsSize := rfl
  rw [stack, locals, argsSize]
  obtain ⟨maxStack, maxLocals, maxArgs⟩ := size
  unfold complete
  split <;> simp_all

/-- The first metric without a value is reported. -/
theorem Metrics.complete_eq_error_iff : metrics.complete number = .error cause ↔
    ∃ key, metricKeys.find? (fun key => metrics.get? key = none) = some key ∧
      cause = .badMetric number (String.ofList key) "" := by
  have stack : metrics.get? "stack".toList = metrics.stack := rfl
  have locals : metrics.get? "locals".toList = metrics.locals := rfl
  have argsSize : metrics.get? "args_size".toList = metrics.argsSize := rfl
  rw [metricKeys, List.find?_cons, List.find?_cons, List.find?_cons, stack, locals, argsSize,
    complete]
  cases metrics.stack <;> cases metrics.locals <;> cases metrics.argsSize <;>
    simp [eq_comm]

theorem FirstBad.unique {field' : List Char} (first : FirstBad fields field)
    (first' : FirstBad fields field') : field = field' := by
  obtain ⟨front, behind, rfl, good, bad⟩ := first
  obtain ⟨front', behind', same, good', bad'⟩ := first'
  rcases List.append_eq_append_iff.1 same with ⟨between, rfl, rest⟩ | ⟨between, rfl, rest⟩
  · rcases List.cons_eq_append_iff.1 rest with ⟨rfl, rest⟩ | ⟨between, rfl, _⟩
    · exact (List.cons_eq_cons.1 rest).1
    · exact absurd ⟨front, between, rfl, good, bad⟩ good'.not_firstBad
  · rcases List.cons_eq_append_iff.1 rest with ⟨rfl, rest⟩ | ⟨between, rfl, _⟩
    · exact (List.cons_eq_cons.1 rest).1.symm
    · exact absurd ⟨front', between, rfl, good', bad'⟩ good.not_firstBad

/-- Fields that are complete are good ones. -/
theorem Complete.goodFields (complete : Complete fields size) : GoodFields fields := by
  obtain ⟨stack, locals, argsSize, permuted, stackValue, localsValue, argsSizeValue⟩ := complete
  have keys : (fields.map metricKey).Perm metricKeys := by
    have mapped := permuted.map Prod.fst
    rwa [List.map_map] at mapped
  refine ⟨fun field member => keys.mem_iff.1 (List.mem_map_of_mem member),
    keys.nodup_iff.2 (by decide), fun field member => ?_⟩
  have parts := permuted.mem_iff.1 (List.mem_map_of_mem member)
  simp only [List.mem_cons, List.not_mem_nil, or_false] at parts
  rcases parts with parts | parts | parts <;> rw [parts]
  · exact ⟨_, stackValue⟩
  · exact ⟨_, localsValue⟩
  · exact ⟨_, argsSizeValue⟩

/-- Fields that have been read give the numbers of a line that is complete. -/
theorem Metrics.Holds.complete_iff (holds : metrics.Holds fields) :
    metrics.complete number = .ok size ↔ Complete fields size := by
  rw [Metrics.complete_eq_ok_iff, holds.get?_iff, holds.get?_iff, holds.get?_iff]
  constructor
  · rintro ⟨⟨stack, stackMember, stackKey, stackValue⟩, ⟨locals, localsMember, localsKey,
      localsValue⟩, argsSize, argsSizeMember, argsSizeKey, argsSizeValue⟩
    refine ⟨_, _, _, ?_, stackValue, localsValue, argsSizeValue⟩
    rw [← stackKey, ← localsKey, ← argsSizeKey]
    change (fields.map metricParts).Perm ([stack, locals, argsSize].map metricParts)
    -- No key comes twice, so the fields are those three.
    have keys : ([stack, locals, argsSize].map metricKey) = metricKeys := by
      simp only [List.map_cons, List.map_nil, stackKey, localsKey, argsSizeKey, metricKeys]
    have distinct : [stack, locals, argsSize].Nodup :=
      List.Nodup.of_map metricKey (keys ▸ by decide)
    have inside : ∀ field ∈ [stack, locals, argsSize], field ∈ fields := by
      simp only [List.forall_mem_cons]
      exact ⟨stackMember, localsMember, argsSizeMember, nofun⟩
    refine List.Perm.map _ ((List.perm_ext_iff_of_nodup holds.good.distinct.of_map distinct).2
      fun field => ⟨fun member => ?_, inside field⟩)
    have known := holds.good.known field member
    rw [← keys, List.mem_map] at known
    obtain ⟨field', member', same⟩ := known
    rwa [← List.inj_on_of_nodup_map holds.good.distinct (inside field' member') member same]
  · rintro ⟨stack, locals, argsSize, permuted, stackValue, localsValue, argsSizeValue⟩
    have there : ∀ key value n, (key, value) ∈ [("stack".toList, stack),
        ("locals".toList, locals), ("args_size".toList, argsSize)] → metricValue? value = some n →
        ∃ field ∈ fields, metricKey field = key ∧ metricValue? (metricParts field).2 = some n := by
      intro key value n member number
      obtain ⟨field, inside, parts⟩ := List.mem_map.1 (permuted.mem_iff.2 member)
      exact ⟨field, inside, congrArg Prod.fst parts, by rw [parts]; exact number⟩
    exact ⟨there _ _ _ (by simp) stackValue, there _ _ _ (by simp) localsValue,
      there _ _ _ (by simp) argsSizeValue⟩

theorem Metrics.Holds.find?_missing (holds : metrics.Holds fields) :
    metricKeys.find? (fun key => metrics.get? key = none) = firstMissing? fields := by
  have same : ∀ key, metrics.get? key = none ↔ key ∉ fields.map metricKey :=
    fun key => not_iff_not.1 (holds.ne_none_iff.trans not_not.symm)
  simp only [firstMissing?, same]

/-- **A metric line is read if and only if it is complete.** -/
theorem readMetrics_eq_ok_iff {line : List Char} :
    readMetrics number line = .ok size ↔ Complete (line.splitOn ',') size := by
  unfold readMetrics
  rw [bind_eq_ok]
  constructor
  · rintro ⟨metrics, read, complete⟩
    rcases readFields_cases number (line.splitOn ',') with ⟨metrics', read', holds⟩ |
      ⟨field, _, refused⟩
    · cases read.symm.trans read'
      exact holds.complete_iff.1 complete
    · cases read.symm.trans refused
  · intro complete
    rcases readFields_cases number (line.splitOn ',') with ⟨metrics, read, holds⟩ |
      ⟨field, bad, _⟩
    · exact ⟨metrics, read, holds.complete_iff.2 complete⟩
    · exact absurd bad complete.goodFields.not_firstBad

/-- **Otherwise the first bad field is reported, or else the first metric that is missing.** -/
theorem readMetrics_eq_error_iff {line : List Char} : readMetrics number line = .error cause ↔
    (∃ field, FirstBad (line.splitOn ',') field ∧ cause = fieldError number field) ∨
    GoodFields (line.splitOn ',') ∧ ∃ key, firstMissing? (line.splitOn ',') = some key ∧
      cause = .badMetric number (String.ofList key) "" := by
  unfold readMetrics
  rcases readFields_cases number (line.splitOn ',') with ⟨metrics, read, holds⟩ |
    ⟨field, bad, refused⟩
  · rw [read]
    change metrics.complete number = _ ↔ _
    rw [Metrics.complete_eq_error_iff, holds.find?_missing]
    constructor
    · exact fun missing => Or.inr ⟨holds.good, missing⟩
    · rintro (⟨field, bad, _⟩ | ⟨_, missing⟩)
      · exact absurd bad holds.good.not_firstBad
      · exact missing
  · rw [refused]
    change Except.error (fieldError number field) = _ ↔ _
    constructor
    · intro same
      cases same
      exact Or.inl ⟨field, bad, rfl⟩
    · rintro (⟨field', bad', rfl⟩ | ⟨good, _⟩)
      · rw [bad.unique bad']
      · exact absurd bad good.not_firstBad

/-! ## Lines of a method -/

/-- **A metric line sets the three metrics of the open method, whatever their order, and
changes nothing else of it; or it is refused** for its first field that is unknown,
repeated or no number of 16 bits, and without such a field for the first metric that is
missing. -/
theorem feed_metricLine {line : List Char} (starts : "stack=".toList <+: line) (number : Nat)
    (header : Header) (methods : List MethodCode) (m : Pending) :
    (∀ scan, Scan.feed number line (.inside header methods (.code m)) = .ok scan ↔
      ∃ size, Complete (line.splitOn ',') size ∧
        scan = .inside header methods (.code { m with size })) ∧
    ∀ cause, Scan.feed number line (.inside header methods (.code m)) = .error cause ↔
      (∃ field, FirstBad (line.splitOn ',') field ∧ cause = fieldError number field) ∨
      GoodFields (line.splitOn ',') ∧ ∃ key, firstMissing? (line.splitOn ',') = some key ∧
        cause = .badMetric number (String.ofList key) "" := by
  obtain ⟨rest, rfl⟩ := starts
  have running : endsCode ("stack=".toList ++ rest) = false := rfl
  have metric : "stack=".toList.isPrefixOf ("stack=".toList ++ rest) = true :=
    List.isPrefixOf_iff_prefix.2 (List.prefix_append _ _)
  have fed : Scan.feed number ("stack=".toList ++ rest) (.inside header methods (.code m))
      = readMetrics number ("stack=".toList ++ rest) >>= fun size =>
        .ok (.inside header methods (.code { m with size })) := by
    rw [Scan.feed, codeLine, running, metric]
    rfl
  rw [fed]
  refine ⟨fun scan => ?_, fun cause => ?_⟩
  · rw [bind_eq_ok]
    constructor
    · rintro ⟨size, read, done⟩
      cases done
      exact ⟨size, readMetrics_eq_ok_iff.1 read, rfl⟩
    · rintro ⟨size, complete, rfl⟩
      exact ⟨size, readMetrics_eq_ok_iff.2 complete, rfl⟩
  · rw [bind_eq_error, readMetrics_eq_error_iff]
    exact or_iff_left nofun

/-- The method whose metrics are read. -/
def measured : Pending where
  name := "f"
  line := 3
  descriptor := some "()V"

/-- The metrics in another order, with blanks around them. -/
def shuffledLine : List Char :=
  "stack=2, args_size = 1,locals=+3".toList

/-- A line whose second and third field are bad and that has no third metric. -/
def brokenLine : List Char :=
  "stack=2, stack=two, junk".toList

theorem shuffled_complete : Complete (shuffledLine.splitOn ',') ⟨2, 3, 1⟩ :=
  ⟨"2".toList, "+3".toList, "1".toList, by decide +kernel, by decide, by decide, by decide⟩

theorem broken_firstBad : FirstBad (brokenLine.splitOn ',') " stack=two".toList := by
  refine ⟨["stack=2".toList], [" junk".toList], by decide +kernel, ⟨?_, by decide, ?_⟩, ?_⟩
  · decide
  · exact List.forall_mem_singleton.2 ⟨2, by decide⟩
  · exact .repeated (by decide)

/-- One line is read, and of the other one the first bad field is reported. -/
theorem shuffled_feed_metricLine :
    "stack=".toList <+: shuffledLine ∧ "stack=".toList <+: brokenLine ∧
    Scan.feed 7 shuffledLine (.inside ⟨"A", rootClass⟩ [] (.code measured))
      = .ok (.inside ⟨"A", rootClass⟩ [] (.code { measured with size := ⟨2, 3, 1⟩ })) ∧
    Scan.feed 7 brokenLine (.inside ⟨"A", rootClass⟩ [] (.code measured))
      = .error (.badMetric 7 "stack" "two") := by
  have starts : "stack=".toList <+: shuffledLine := by decide
  have starts' : "stack=".toList <+: brokenLine := by decide
  obtain ⟨reads, -⟩ := feed_metricLine starts 7 ⟨"A", rootClass⟩ [] measured
  obtain ⟨-, refuses⟩ := feed_metricLine starts' 7 ⟨"A", rootClass⟩ [] measured
  refine ⟨starts, starts', (reads _).2 ⟨_, shuffled_complete, rfl⟩, (refuses _).2 (Or.inl ?_)⟩
  exact ⟨_, broken_firstBad, by decide +kernel⟩

end ClassMachine.Listing
