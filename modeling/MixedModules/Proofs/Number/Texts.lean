import Mathlib.Data.List.DropRight
import MixedModules.Coercion
import MixedModules.Proofs.Number.Numerals

/-! Which texts are numbers.

For scripts a text is a number if nothing but white space and ends of lines is in it, or if there is
a literal between them: a decimal one or the word `Infinity`, with an optional sign, or digits after
the mark of another base. The conversion takes other texts: it knows no bases, it has two words for
infinity and no eye for their case, and what it calls blank is another set of characters. -/
namespace MixedModules

open Number

/-! ## Numeric texts of scripts -/

/-- What is left between the blanks at both ends. -/
def strip (blank : Char → Bool) (cs : List Char) : List Char :=
  (cs.dropWhile blank).rdropWhile blank

/-- White space: tabs, the form feed, the zero-width no-break space and the space separators. -/
def whiteSpace : List Nat :=
  [0x9, 0xB, 0xC, 0xFEFF, 0x20, 0xA0, 0x1680, 0x2000, 0x2001, 0x2002, 0x2003, 0x2004, 0x2005,
    0x2006, 0x2007, 0x2008, 0x2009, 0x200A, 0x202F, 0x205F, 0x3000]

/-- Line feed, carriage return, and the separators of lines and of paragraphs. -/
def lineTerminators : List Nat := [0xA, 0xD, 0x2028, 0x2029]

/-- White space and line terminators. -/
def isScriptBlank (c : Char) : Bool := (whiteSpace ++ lineTerminators).contains c.toNat

/-- An integer in another base: its mark after a zero, and at least one digit. -/
inductive BasedLiteral : List Char → Prop
  | binary {mark : Char} {ds : List Char} (marked : mark = 'b' ∨ mark = 'B') (some : ds ≠ [])
      (digits : ∀ c ∈ ds, c = '0' ∨ c = '1') : BasedLiteral ('0' :: mark :: ds)
  | octal {mark : Char} {ds : List Char} (marked : mark = 'o' ∨ mark = 'O') (some : ds ≠ [])
      (digits : ∀ c ∈ ds, '0' ≤ c ∧ c ≤ '7') : BasedLiteral ('0' :: mark :: ds)
  | hexadecimal {mark : Char} {ds : List Char} (marked : mark = 'x' ∨ mark = 'X') (some : ds ≠ [])
      (digits : ∀ c ∈ ds, c.isDigit = true ∨ 'a' ≤ c ∧ c ≤ 'f' ∨ 'A' ≤ c ∧ c ≤ 'F') :
      BasedLiteral ('0' :: mark :: ds)

/-- The one word that scripts have for infinity, or a decimal literal. -/
def ScriptDecimal (cs : List Char) : Prop :=
  cs = ['I', 'n', 'f', 'i', 'n', 'i', 't', 'y'] ∨ DecimalLiteral cs

/-- The texts that scripts take for numbers. -/
def ScriptNumeric (s : String) : Prop :=
  strip isScriptBlank s.toList = [] ∨ Signed ScriptDecimal (strip isScriptBlank s.toList) ∨
    BasedLiteral (strip isScriptBlank s.toList)

/-- A text is converted to a number, and not to what is none. -/
def Value.Accepts (s : String) : Prop :=
  ∃ n, (Value.string s).toNumber = .ok n ∧ n.isNaN = false

variable {cs : List Char} {c : Char}

/-! ## Blanks -/

theorem isScriptBlank_iff (c : Char) :
    isScriptBlank c = true ↔ c.toNat ∈ whiteSpace ++ lineTerminators := by
  rw [isScriptBlank, List.contains_iff_mem]

theorem isBlank_iff (c : Char) : Text.isBlank c = true ↔
    ∃ run ∈ Text.blankRuns, run.1 ≤ c.toNat ∧ c.toNat ≤ run.2 := by
  simp [Text.isBlank]

/-- The two sets of blanks differ in the next-line control and the zero-width no-break space. -/
theorem isBlank_eq_isScriptBlank_iff (c : Char) :
    Text.isBlank c = isScriptBlank c ↔ c ≠ '\u0085' ∧ c ≠ '\ufeff' := by
  have next : c = '\u0085' ↔ c.toNat = 0x85 := (Char.toNat_inj (d := '\u0085')).symm
  have joined : c = '\ufeff' ↔ c.toNat = 0xFEFF := (Char.toNat_inj (d := '\ufeff')).symm
  rw [Bool.eq_iff_iff, isBlank_iff, isScriptBlank_iff, ne_eq, ne_eq, next, joined]
  generalize c.toNat = n
  simp only [Text.blankRuns, whiteSpace, lineTerminators, List.mem_cons, List.not_mem_nil,
    List.cons_append, List.nil_append, or_false, exists_eq_or_imp, exists_eq_left]
  omega

theorem trim_eq_strip (cs : List Char) : Text.trim cs = strip Text.isBlank cs := rfl

/-- A stripped text without any blanks is all that is not blank in the text. -/
theorem strip_eq_filter {blank visible : Char → Bool}
    (apart : ∀ c, blank c = true → visible c = false)
    (clear : ∀ c ∈ strip blank cs, visible c = true) : strip blank cs = cs.filter visible := by
  have front : (cs.takeWhile blank).filter visible = [] :=
    List.filter_eq_nil_iff.mpr fun c member => by
      simp [apart c (List.mem_takeWhile_imp member)]
  have back : ((cs.dropWhile blank).rtakeWhile blank).filter visible = [] :=
    List.filter_eq_nil_iff.mpr fun c member => by
      simp [apart c (List.mem_rtakeWhile_imp member)]
  have parts : cs.filter visible =
      (cs.takeWhile blank ++ (strip blank cs ++ (cs.dropWhile blank).rtakeWhile blank)).filter
        visible := by
    rw [strip, List.rdropWhile_append_rtakeWhile, List.takeWhile_append_dropWhile]
  rw [parts, List.filter_append, List.filter_append, front, back, List.nil_append, List.append_nil]
  exact (List.filter_eq_self.mpr clear).symm

/-! ## Characters of literals -/

/-- The visible characters of the basic alphabet. -/
def isVisible (c : Char) : Bool := 0x21 ≤ c.toNat && c.toNat ≤ 0x7E

theorem not_visible_of_isBlank (c : Char) (blank : Text.isBlank c = true) :
    isVisible c = false := by
  rw [isBlank_iff] at blank
  simp only [Text.blankRuns, List.mem_cons, List.not_mem_nil, or_false, exists_eq_or_imp,
    exists_eq_left] at blank
  simp only [isVisible, Bool.and_eq_false_iff, decide_eq_false_iff_not]
  omega

theorem not_visible_of_isScriptBlank (c : Char) (blank : isScriptBlank c = true) :
    isVisible c = false := by
  rw [isScriptBlank_iff] at blank
  simp only [whiteSpace, lineTerminators, List.mem_cons, List.not_mem_nil, List.cons_append,
    List.nil_append, or_false] at blank
  simp only [isVisible, Bool.and_eq_false_iff, decide_eq_false_iff_not]
  omega

/-- All characters are visible. -/
def Visible (cs : List Char) : Prop := ∀ c ∈ cs, isVisible c = true

theorem visible_of_between {low high : Char} (ends : isVisible low = true ∧ isVisible high = true)
    (above : low ≤ c) (below : c ≤ high) : isVisible c = true := by
  rw [Char.le_def, UInt32.le_iff_toNat_le] at above below
  simp only [isVisible, Char.toNat, Bool.and_eq_true, decide_eq_true_eq] at ends ⊢
  omega

theorem visible_of_isDigit (digit : c.isDigit = true) : isVisible c = true := by
  simp only [Char.isDigit, Bool.and_eq_true, decide_eq_true_eq] at digit
  exact visible_of_between (by decide) (Char.le_def.mpr digit.1) (Char.le_def.mpr digit.2)

/-- Only a visible character has a lowercase letter. -/
theorem visible_of_toLower (letter : 'a' ≤ c.toLower ∧ c.toLower ≤ 'z') : isVisible c = true := by
  by_cases upper : c.val ≥ 'A'.val ∧ c.val ≤ 'Z'.val
  · exact visible_of_between (by decide) (Char.le_def.mpr upper.1) (Char.le_def.mpr upper.2)
  · have same : c.toLower = c := dif_neg upper
    rw [same] at letter
    exact visible_of_between (by decide) letter.1 letter.2

theorem Number.Digits.visible (digits : Digits cs) : Visible cs :=
  fun c member => visible_of_isDigit (digits.each c member)

theorem Number.Signed.visible {Rest : List Char → Prop} (each : ∀ cs, Rest cs → Visible cs)
    (signed : Signed Rest cs) : Visible cs := by
  cases signed with
  | bare rest => exact each _ rest
  | plus rest => exact List.forall_mem_cons.mpr ⟨rfl, each _ rest⟩
  | minus rest => exact List.forall_mem_cons.mpr ⟨rfl, each _ rest⟩

theorem Number.Power.visible (power : Power cs) : Visible cs := by
  cases power with
  | none => exact List.forall_mem_nil _
  | some marked size =>
    refine List.forall_mem_cons.mpr ⟨?_, size.visible fun _ => Digits.visible⟩
    rcases marked with rfl | rfl <;> rfl

theorem Number.DecimalLiteral.visible (literal : DecimalLiteral cs) : Visible cs := by
  cases literal with
  | whole digits scale => exact List.forall_mem_append.mpr ⟨digits.visible, scale.visible⟩
  | pointed digits fraction scale =>
    refine List.forall_mem_append.mpr ⟨digits.visible, List.forall_mem_cons.mpr ⟨rfl, ?_⟩⟩
    refine List.forall_mem_append.mpr ⟨?_, scale.visible⟩
    rcases fraction with rfl | fraction
    · exact List.forall_mem_nil _
    · exact fraction.visible
  | fraction digits scale =>
    exact List.forall_mem_cons.mpr ⟨rfl, List.forall_mem_append.mpr ⟨digits.visible, scale.visible⟩⟩

theorem Number.InfinityWord.visible (word : InfinityWord cs) : Visible cs := by
  intro c member
  have letter : c.toLower ∈ cs.map Char.toLower := List.mem_map_of_mem member
  apply visible_of_toLower
  generalize c.toLower = lower at letter
  rcases word with word | word <;> rw [word] at letter <;> revert lower <;> simp

theorem ScriptDecimal.visible (literal : ScriptDecimal cs) : Visible cs := by
  rcases literal with rfl | literal
  · exact List.all_eq_true.mp rfl
  · exact literal.visible

/-- An integer in another base is a zero, the mark of the base, and visible digits. -/
theorem BasedLiteral.parts (literal : BasedLiteral cs) : ∃ mark ds, cs = '0' :: mark :: ds ∧
    mark ∈ ['b', 'B', 'o', 'O', 'x', 'X'] ∧ Visible ds := by
  cases literal with
  | @binary mark ds marked some digits =>
    refine ⟨mark, ds, rfl, by rcases marked with rfl | rfl <;> decide, fun c member => ?_⟩
    rcases digits c member with rfl | rfl <;> rfl
  | @octal mark ds marked some digits =>
    refine ⟨mark, ds, rfl, by rcases marked with rfl | rfl <;> decide, fun c member => ?_⟩
    exact visible_of_between (by decide) (digits c member).1 (digits c member).2
  | @hexadecimal mark ds marked some digits =>
    refine ⟨mark, ds, rfl, by rcases marked with rfl | rfl <;> decide, fun c member => ?_⟩
    rcases digits c member with digit | letter | letter
    · exact visible_of_isDigit digit
    · exact visible_of_between (by decide) letter.1 letter.2
    · exact visible_of_between (by decide) letter.1 letter.2

theorem BasedLiteral.visible (literal : BasedLiteral cs) : Visible cs := by
  obtain ⟨mark, ds, rfl, marked, digits⟩ := literal.parts
  have visible : isVisible mark = true := List.all_eq_true.mp rfl mark marked
  exact List.forall_mem_cons.mpr ⟨rfl, List.forall_mem_cons.mpr ⟨visible, digits⟩⟩

/-! ## Literals of the two kinds -/

theorem ScriptDecimal.read (literal : ScriptDecimal cs) : InfinityWord cs ∨ DecimalLiteral cs := by
  refine literal.imp_left ?_
  rintro rfl
  exact .inr rfl

theorem signed_scriptDecimal (literal : Signed ScriptDecimal cs) :
    Signed InfinityWord cs ∨ Signed DecimalLiteral cs := by
  cases literal with
  | bare rest => exact rest.read.imp .bare .bare
  | plus rest => exact rest.read.imp .plus .plus
  | minus rest => exact rest.read.imp .minus .minus

/-- The mark of a base ends a decimal literal, and begins no power of ten. -/
theorem BasedLiteral.not_decimal (literal : BasedLiteral cs) : ¬ Signed DecimalLiteral cs := by
  obtain ⟨mark, ds, rfl, marked, -⟩ := literal.parts
  have plain : mark.isDigit = false ∧ mark ≠ '.' ∧ mark ≠ 'e' ∧ mark ≠ 'E' := by
    clear literal
    revert mark
    simp
  obtain ⟨digit, point, power⟩ := plain
  rw [signed_iff DecimalLiteral.unsigned, ← isSome_readUnsigned false]
  intro read
  have zero : ∀ c ∈ ['0'], c.isDigit = true := by simp
  have stops : ∀ c ∈ (mark :: ds).head?, c.isDigit = false ∧ c ≠ '.' := by simp [digit, point]
  obtain ⟨-, scale⟩ := (isSome_readUnsigned_plain zero stops).mp read
  cases scale with
  | some marked => exact marked.elim power.1 power.2

theorem BasedLiteral.not_infinite (literal : BasedLiteral cs) : ¬ Signed InfinityWord cs := by
  obtain ⟨mark, ds, rfl, -⟩ := literal.parts
  rw [signed_iff InfinityWord.unsigned]
  rintro (word | word) <;> exact absurd (List.cons.inj word).1 (by decide)

/-! ## Acceptance -/

theorem accepts_iff (s : String) : Value.Accepts s ↔
    strip Text.isBlank s.toList = [] ∨ Signed InfinityWord (strip Text.isBlank s.toList) ∨
      Signed DecimalLiteral (strip Text.isBlank s.toList) := by
  have converted : Value.Accepts s ↔ (textNumber s).isNaN = false :=
    ⟨fun ⟨n, made, number⟩ => by cases made; exact number, fun number => ⟨_, rfl, number⟩⟩
  rw [converted, textNumber, trim_eq_strip, ← read_eq_number_iff]
  cases strip Text.isBlank s.toList with
  | nil => exact iff_of_true (by decide) (.inl rfl)
  | cons c rest =>
    dsimp only
    cases Numeral.read (c :: rest) with
    | none => exact iff_of_false (by decide) (by simp)
    | some n => simp

/-- Between the blanks of an accepted text nothing is blank, in either sense. -/
theorem strip_of_accepts {s : String} (accepts : Value.Accepts s) :
    strip Text.isBlank s.toList = s.toList.filter isVisible := by
  refine strip_eq_filter not_visible_of_isBlank ?_
  rcases (accepts_iff s).mp accepts with empty | word | literal
  · rw [empty]
    exact List.forall_mem_nil _
  · exact word.visible fun _ => InfinityWord.visible
  · exact literal.visible fun _ => DecimalLiteral.visible

theorem strip_of_scriptNumeric {s : String} (numeric : ScriptNumeric s) :
    strip isScriptBlank s.toList = s.toList.filter isVisible := by
  refine strip_eq_filter not_visible_of_isScriptBlank ?_
  rcases numeric with empty | literal | based
  · rw [empty]
    exact List.forall_mem_nil _
  · exact literal.visible fun _ => ScriptDecimal.visible
  · exact based.visible

/-- A text is accepted if nothing is left of it without its blanks, or a word for infinity or a
decimal literal with an optional sign. Of these the numbers of scripts are those with nothing else
between the blanks of scripts, and the one word of theirs. The blanks are the same but for two. -/
theorem Value.string_accepted (s : String) :
    (Value.Accepts s ↔ strip Text.isBlank s.toList = [] ∨
      Signed InfinityWord (strip Text.isBlank s.toList) ∨
      Signed DecimalLiteral (strip Text.isBlank s.toList)) ∧
    (Value.Accepts s ∧ ScriptNumeric s ↔
      strip Text.isBlank s.toList = strip isScriptBlank s.toList ∧
      (strip Text.isBlank s.toList = [] ∨ Signed ScriptDecimal (strip Text.isBlank s.toList))) ∧
    ∀ c, Text.isBlank c = isScriptBlank c ↔ c ≠ '\u0085' ∧ c ≠ '\ufeff' := by
  refine ⟨accepts_iff s, ⟨?_, ?_⟩, isBlank_eq_isScriptBlank_iff⟩
  · rintro ⟨accepts, numeric⟩
    -- What is left is all that is visible in the text, whichever blanks were taken off.
    have same : strip Text.isBlank s.toList = strip isScriptBlank s.toList :=
      (strip_of_accepts accepts).trans (strip_of_scriptNumeric numeric).symm
    refine ⟨same, ?_⟩
    rw [accepts_iff, same] at accepts
    rw [same]
    rcases numeric with empty | literal | based
    · exact .inl empty
    · exact .inr literal
    · rcases accepts with empty | word | literal
      · exact .inl empty
      · exact absurd word based.not_infinite
      · exact absurd literal based.not_decimal
  · rintro ⟨same, left⟩
    rw [accepts_iff, ScriptNumeric, ← same]
    exact ⟨left.imp_right signed_scriptDecimal, left.imp_right .inl⟩

/-- A shorter word for infinity is accepted, though it is no number of scripts. -/
theorem Value.accepts_beyond_scripts : ¬ ∀ s : String, Value.Accepts s ↔ ScriptNumeric s := by
  intro same
  have accepts : Value.Accepts "inf" := (accepts_iff _).mpr (.inr (.inl (.bare (.inl rfl))))
  have core : strip isScriptBlank "inf".toList = ['i', 'n', 'f'] := by decide
  have numeric := (same "inf").mp accepts
  rw [ScriptNumeric, core] at numeric
  rcases numeric with empty | literal | based
  · cases empty
  · cases literal with
    | bare rest =>
      rcases rest with word | literal
      · exact absurd word (by decide)
      · obtain ⟨_, _, first, start⟩ := literal.head
        cases first
        exact absurd start (by decide)
  · cases based

end MixedModules
