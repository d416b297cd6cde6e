import Mathlib.Data.List.TakeWhile
import MixedModules.Number.Decimal
import MixedModules.Proofs.Number.Exactness

/-! Which texts are numerals.

A decimal literal is said by its parts: digits with at most one point, digits on one side of it at
least, and a power of ten. Beside the literals there are the words for infinity. The reader takes
these with an optional sign, and nothing else that is a number. -/
namespace MixedModules.Number

/-! ## Literals -/

/-- Digits, at least one. -/
structure Digits (cs : List Char) : Prop where
  some : cs ≠ []
  each : ∀ c ∈ cs, c.isDigit = true

/-- What may have a sign before it. -/
inductive Signed (Rest : List Char → Prop) : List Char → Prop
  | bare {cs : List Char} (rest : Rest cs) : Signed Rest cs
  | plus {cs : List Char} (rest : Rest cs) : Signed Rest ('+' :: cs)
  | minus {cs : List Char} (rest : Rest cs) : Signed Rest ('-' :: cs)

/-- The power of ten at the end of a literal, or nothing. -/
inductive Power : List Char → Prop
  | none : Power []
  | some {mark : Char} {cs : List Char} (marked : mark = 'e' ∨ mark = 'E')
      (size : Signed Digits cs) : Power (mark :: cs)

/-- A decimal literal without a sign. A point has digits on one side of it at least. -/
inductive DecimalLiteral : List Char → Prop
  | whole {ds power : List Char} (digits : Digits ds) (scale : Power power) :
      DecimalLiteral (ds ++ power)
  | pointed {ds fs power : List Char} (digits : Digits ds) (fraction : fs = [] ∨ Digits fs)
      (scale : Power power) : DecimalLiteral (ds ++ '.' :: (fs ++ power))
  | fraction {fs power : List Char} (digits : Digits fs) (scale : Power power) :
      DecimalLiteral ('.' :: (fs ++ power))

/-- A word for infinity, in any case of its letters. -/
def InfinityWord (cs : List Char) : Prop :=
  cs.map Char.toLower = ['i', 'n', 'f'] ∨
    cs.map Char.toLower = ['i', 'n', 'f', 'i', 'n', 'i', 't', 'y']

variable {cs ds rest : List Char} {negative : Bool}

/-! ## Reading parts -/

/-- A row of digits ends where the next character is no digit. -/
theorem span_digits (digits : ∀ c ∈ ds, c.isDigit = true)
    (stops : ∀ c ∈ rest.head?, c.isDigit = false) :
    (ds ++ rest).takeWhile Char.isDigit = ds ∧ (ds ++ rest).dropWhile Char.isDigit = rest := by
  rw [List.takeWhile_append_of_pos digits, List.dropWhile_append_of_pos digits]
  cases rest with
  | nil => simp
  | cons c rest =>
    have stop : c.isDigit = false := stops c rfl
    simp [stop]

/-- A sign is taken off what has none itself. -/
theorem signed_iff {Rest : List Char → Prop}
    (unsigned : ∀ c cs, Rest (c :: cs) → c ≠ '+' ∧ c ≠ '-') (cs : List Char) :
    Signed Rest cs ↔ Rest (takeSign cs).2 := by
  constructor
  · intro signed
    cases signed with
    | plus rest => exact rest
    | minus rest => exact rest
    | bare rest =>
      unfold takeSign
      split
      · next minus => exact absurd rfl (unsigned _ _ rest).2
      · next plus => exact absurd rfl (unsigned _ _ rest).1
      · exact rest
  · intro rest
    unfold takeSign at rest
    split at rest
    · exact .minus rest
    · exact .plus rest
    · exact .bare rest

theorem Digits.unsigned (c : Char) (cs : List Char) (digits : Digits (c :: cs)) :
    c ≠ '+' ∧ c ≠ '-' := by
  have digit := digits.each c List.mem_cons_self
  constructor <;> rintro rfl <;> simp at digit

theorem digits_iff (cs : List Char) : Digits cs ↔ cs ≠ [] ∧ cs.all Char.isDigit = true :=
  ⟨fun digits => ⟨digits.some, List.all_eq_true.mpr digits.each⟩,
    fun parts => ⟨parts.1, List.all_eq_true.mp parts.2⟩⟩

theorem power_cons_iff (c : Char) (rest : List Char) :
    Power (c :: rest) ↔ (c = 'e' ∨ c = 'E') ∧ Signed Digits rest := by
  constructor
  · intro power
    cases power with
    | some marked size => exact ⟨marked, size⟩
  · rintro ⟨marked, size⟩
    exact .some marked size

theorem isSome_readPower (cs : List Char) : (Decimal.readPower cs).isSome = true ↔ Power cs := by
  cases cs with
  | nil => exact ⟨fun _ => .none, fun _ => rfl⟩
  | cons c rest =>
    rw [power_cons_iff, signed_iff Digits.unsigned, digits_iff, Decimal.readPower]
    by_cases marked : c = 'e' ∨ c = 'E'
    · rw [if_pos marked, and_iff_right marked]
      dsimp only
      split
      · next size => exact iff_of_true rfl size
      · next size => exact iff_of_false (by decide) size
    · rw [if_neg marked]
      exact iff_of_false (by decide) fun parts => marked parts.1

theorem Power.stops (power : Power cs) : ∀ c ∈ cs.head?, c.isDigit = false ∧ c ≠ '.' := by
  intro c first
  cases power with
  | none => cases first
  | some marked size =>
    cases first
    rcases marked with rfl | rfl <;> decide

/-! ## Reading literals -/

theorem isSome_readUnsigned_plain (digits : ∀ c ∈ ds, c.isDigit = true)
    (stops : ∀ c ∈ rest.head?, c.isDigit = false ∧ c ≠ '.') :
    (Decimal.readUnsigned negative (ds ++ rest)).isSome = true ↔ ds ≠ [] ∧ Power rest := by
  obtain ⟨taken, left⟩ := span_digits digits fun c first => (stops c first).1
  rw [← isSome_readPower]
  simp only [Decimal.readUnsigned, taken, left]
  split
  · exact absurd rfl (stops '.' rfl).2
  · by_cases none : ds = [] <;> simp [none]

theorem isSome_readUnsigned_pointed {fs : List Char} (digits : ∀ c ∈ ds, c.isDigit = true)
    (fraction : ∀ c ∈ fs, c.isDigit = true) (stops : ∀ c ∈ rest.head?, c.isDigit = false) :
    (Decimal.readUnsigned negative (ds ++ '.' :: (fs ++ rest))).isSome = true ↔
      ¬ (ds = [] ∧ fs = []) ∧ Power rest := by
  have point : ∀ c ∈ ('.' :: (fs ++ rest)).head?, c.isDigit = false := by simp
  obtain ⟨taken, left⟩ := span_digits digits point
  obtain ⟨takenNext, leftNext⟩ := span_digits fraction stops
  rw [← isSome_readPower]
  simp only [Decimal.readUnsigned, taken, left, takenNext, leftNext]
  by_cases none : ds = [] ∧ fs = [] <;> simp [none]

/-- Any text begins with its digits, and goes on with what is no digit. -/
theorem exists_span (cs : List Char) : ∃ ds rest, cs = ds ++ rest ∧
    (∀ c ∈ ds, c.isDigit = true) ∧ ∀ c ∈ rest.head?, c.isDigit = false := by
  refine ⟨cs.takeWhile Char.isDigit, cs.dropWhile Char.isDigit,
    List.takeWhile_append_dropWhile.symm, fun _ member => List.mem_takeWhile_imp member, ?_⟩
  intro c first
  have stop := List.head?_dropWhile_not Char.isDigit cs
  rw [Option.mem_def.mp first] at stop
  exact stop

/-- The reader takes exactly the decimal literals. -/
theorem isSome_readUnsigned (negative : Bool) (cs : List Char) :
    (Decimal.readUnsigned negative cs).isSome = true ↔ DecimalLiteral cs := by
  constructor
  · intro read
    -- The text is cut where the reader cuts it, and the point decides which literal it may be.
    obtain ⟨ds, rest, rfl, digits, stops⟩ := exists_span cs
    by_cases point : rest.head? = some '.'
    · obtain ⟨rest, rfl⟩ := List.head?_eq_some_iff.mp point
      obtain ⟨fs, rest, rfl, fraction, stopsNext⟩ := exists_span rest
      obtain ⟨some, scale⟩ := (isSome_readUnsigned_pointed digits fraction stopsNext).mp read
      by_cases none : ds = []
      · subst none
        exact .fraction ⟨fun empty => some ⟨rfl, empty⟩, fraction⟩ scale
      · refine .pointed ⟨none, digits⟩ ?_ scale
        by_cases empty : fs = []
        · exact .inl empty
        · exact .inr ⟨empty, fraction⟩
    · obtain ⟨some, scale⟩ := (isSome_readUnsigned_plain digits fun c first =>
        ⟨stops c first, fun same => point (same ▸ first)⟩).mp read
      exact .whole ⟨some, digits⟩ scale
  · intro literal
    cases literal with
    | whole digits scale =>
      exact (isSome_readUnsigned_plain digits.each scale.stops).mpr ⟨digits.some, scale⟩
    | @pointed ds fs power digits fraction scale =>
      have each : ∀ c ∈ fs, c.isDigit = true := by
        rcases fraction with rfl | fraction
        · simp
        · exact fraction.each
      exact (isSome_readUnsigned_pointed digits.each each fun c first =>
        (scale.stops c first).1).mpr ⟨fun none => digits.some none.1, scale⟩
    | fraction digits scale =>
      exact (isSome_readUnsigned_pointed (List.forall_mem_nil _) digits.each fun c first =>
        (scale.stops c first).1).mpr ⟨fun none => digits.some none.2, scale⟩

/-- A literal begins with a digit or with its point. -/
theorem DecimalLiteral.head (literal : DecimalLiteral cs) :
    ∃ c rest, cs = c :: rest ∧ (c.isDigit = true ∨ c = '.') := by
  have first {ds rest : List Char} (digits : Digits ds) :
      ∃ c tail, ds ++ rest = c :: tail ∧ (c.isDigit = true ∨ c = '.') := by
    obtain ⟨c, tail, rfl⟩ := List.exists_cons_of_ne_nil digits.some
    exact ⟨c, tail ++ rest, rfl, .inl (digits.each c List.mem_cons_self)⟩
  cases literal with
  | whole digits => exact first digits
  | pointed digits => exact first digits
  | fraction => exact ⟨'.', _, rfl, .inr rfl⟩

theorem DecimalLiteral.unsigned (c : Char) (cs : List Char) (literal : DecimalLiteral (c :: cs)) :
    c ≠ '+' ∧ c ≠ '-' := by
  obtain ⟨_, _, same, first⟩ := literal.head
  cases same
  constructor <;> rintro rfl <;> revert first <;> decide

theorem InfinityWord.unsigned (c : Char) (cs : List Char) (word : InfinityWord (c :: cs)) :
    c ≠ '+' ∧ c ≠ '-' := by
  have letter : c.toLower = 'i' := by rcases word with word | word <;> exact (List.cons.inj word).1
  constructor <;> rintro rfl <;> revert letter <;> decide

theorem toLower_of_isDigit {c : Char} (digit : c.isDigit = true) : c.toLower = c := by
  simp only [Char.isDigit, Bool.and_eq_true, decide_eq_true_eq, UInt32.le_iff_toNat_le,
    ge_iff_le] at digit
  apply dif_neg
  rintro ⟨large, _⟩
  exact absurd ((UInt32.le_iff_toNat_le.mp large).trans digit.2) (by decide)

/-- A literal is no word, in any case of its letters. -/
theorem DecimalLiteral.map_toLower_ne (literal : DecimalLiteral cs) {word : List Char}
    (letter : ∀ c ∈ word.head?, c.isDigit = false ∧ c ≠ '.') : cs.map Char.toLower ≠ word := by
  obtain ⟨c, rest, rfl, first⟩ := literal.head
  rintro rfl
  obtain ⟨digit, point⟩ := letter c.toLower rfl
  rcases first with first | rfl
  · rw [toLower_of_isDigit first, first] at digit
    cases digit
  · exact point rfl

/-! ## Numbers -/

theorem isNaN_ofRatio (negative : Bool) (num den : ℕ) :
    (Double.ofRatio negative num den).isNaN = false := by
  have number := Format.read_nearest_ne_nan Format.double negative num den
  rw [Double.isNaN, Double.datum_ofRatio, beq_eq_false_iff_ne]
  exact number

/-- What is read as a number is a decimal literal or a word for infinity, with an optional sign. -/
theorem read_eq_number_iff (cs : List Char) :
    (∃ n, Numeral.read cs = some n ∧ n.toDouble.isNaN = false) ↔
      Signed InfinityWord cs ∨ Signed DecimalLiteral cs := by
  rw [signed_iff InfinityWord.unsigned, signed_iff DecimalLiteral.unsigned]
  unfold Numeral.read
  generalize takeSign cs = parts
  obtain ⟨negative, rest⟩ := parts
  have infinite : (String.ofList (rest.map Char.toLower) = "inf" ∨
      String.ofList (rest.map Char.toLower) = "infinity") ↔ InfinityWord rest :=
    or_congr String.ofList_inj String.ofList_inj
  have unnumbered : String.ofList (rest.map Char.toLower) = "nan" ↔
      rest.map Char.toLower = ['n', 'a', 'n'] := String.ofList_inj
  dsimp only
  by_cases word : InfinityWord rest
  · rw [if_pos (infinite.mpr word)]
    refine iff_of_true ⟨_, rfl, ?_⟩ (.inl word)
    cases negative <;> decide
  rw [if_neg (infinite.not.mpr word), or_iff_right word]
  by_cases none : rest.map Char.toLower = ['n', 'a', 'n']
  · rw [if_pos (unnumbered.mpr none)]
    constructor
    · rintro ⟨n, read, number⟩
      cases read
      cases number
    · intro literal
      exact absurd none (literal.map_toLower_ne (by simp))
  · rw [if_neg (unnumbered.not.mpr none), ← isSome_readUnsigned negative]
    cases Decimal.readUnsigned negative rest with
    | none => simp
    | some value =>
      refine iff_of_true ⟨_, rfl, ?_⟩ rfl
      exact isNaN_ofRatio ..

end MixedModules.Number
