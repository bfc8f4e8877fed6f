import MemTier.Dataset.IndexParsers

/-!
# The two parsers on one index file

Where both parsers accept a file they find as many samples, if no line holds two records kept apart
by a carriage return alone. A line of five fields gives the same sample to both. A line of four
fields does not: C++ takes it as a sample without a label, Python as a sample of `data_file`.
-/

namespace MemTier.Dataset

open Containers.Words Trace

variable {interpreter : Interpreter} {dataFile : Option String}

/-! ## Blanks and white space -/

theorem isSpace_of_isBlank {char : Char} (blank : isBlank char) : isSpace char := by
  unfold isBlank at blank
  unfold isSpace
  simp only [Bool.or_eq_true, decide_eq_true_eq] at blank ⊢
  omega

theorem splitSpaces_eq (text : List Char) : splitSpaces text = words isSpace text := rfl

theorem words_reverse_dropWhile (space : Char → Bool) (text : List Char) :
    words space (text.reverse.dropWhile space).reverse = words space text := by
  induction text using List.reverseRecOn with
  | nil => rfl
  | append_singleton front char induction =>
      rw [List.reverse_append, List.reverse_singleton, List.singleton_append]
      by_cases blank : space char
      · rw [List.dropWhile_cons_of_pos blank, induction, words_append_cons blank, words_nil,
          List.append_nil]
      · rw [List.dropWhile_cons_of_neg blank, List.reverse_cons, List.reverse_reverse]

theorem splitSpaces_strip (text : List Char) : splitSpaces (strip text) = splitSpaces text := by
  rw [splitSpaces_eq, strip, words_reverse_dropWhile, words_dropWhile, splitSpaces_eq]

theorem strip_eq_nil_iff {text : List Char} : strip text = [] ↔ splitSpaces text = [] := by
  constructor
  · intro stripped
    rw [← splitSpaces_strip, stripped]
    rfl
  · intro no_words
    have blank := words_eq_nil_iff.mp no_words
    rw [strip, List.dropWhile_eq_nil_iff.mpr blank]
    rfl

theorem strip_eq_self {text : List Char} (solid : ∀ char ∈ text, isSpace char = false) :
    strip text = text := by
  have front : ∀ list : List Char, (∀ char ∈ list, isSpace char = false) →
      list.dropWhile isSpace = list := by
    intro list solid
    cases list with
    | nil => rfl
    | cons head tail => rw [List.dropWhile_cons_of_neg (by simp [solid head])]
  have reversed : ∀ char ∈ text.reverse, isSpace char = false := fun char member =>
    solid char (List.mem_reverse.mp member)
  rw [strip, front text solid, front _ reversed, List.reverse_reverse]

/-! ## Plain numerals -/

/-- ASCII digits after an optional sign. -/
structure IsNumeral (text : List Char) : Prop where
  nonempty : (takeSign text).2 ≠ []
  digits : ∀ char ∈ (takeSign text).2, char.isDigit

def numeralValue (text : List Char) : Int :=
  signed (takeSign text).1 (digitsValue (takeSign text).2)

theorem takeSign_append {text : List Char} (nonempty : text ≠ []) (tail : List Char) :
    takeSign (text ++ tail) = ((takeSign text).1, (takeSign text).2 ++ tail) := by
  cases text with
  | nil => exact absurd rfl nonempty
  | cons head rest =>
      rw [List.cons_append, takeSign, takeSign]
      split_ifs <;> rfl

theorem isDigit_bounds {char : Char} (digit : char.isDigit) :
    48 ≤ char.toNat ∧ char.toNat ≤ 57 := by
  simp only [Char.isDigit, Bool.and_eq_true, decide_eq_true_eq, ge_iff_le, UInt32.le_iff_toNat_le]
    at digit
  exact digit

theorem not_isSpace_of_isDigit {char : Char} (digit : char.isDigit) : isSpace char = false := by
  have bounds := isDigit_bounds digit
  simp only [isSpace, Bool.or_eq_false_iff, decide_eq_false_iff_not]
  omega

theorem not_isBlank_of_isDigit {char : Char} (digit : char.isDigit) : isBlank char = false := by
  by_contra blank
  have space := isSpace_of_isBlank (by simpa using blank)
  rw [not_isSpace_of_isDigit digit] at space
  exact absurd space (by simp)

theorem takeWhile_append_of_stop {stop : Char → Bool} {run tail : List Char}
    (inside : ∀ char ∈ run, stop char) (outside : ∀ char ∈ tail.head?, stop char = false) :
    (run ++ tail).takeWhile stop = run ∧ (run ++ tail).dropWhile stop = tail := by
  have cut : tail.takeWhile stop = [] ∧ tail.dropWhile stop = tail := by
    cases tail with
    | nil => exact ⟨rfl, rfl⟩
    | cons head rest =>
        have stopped : ¬ stop head := by simp [outside head rfl]
        exact ⟨List.takeWhile_cons_of_neg stopped, List.dropWhile_cons_of_neg stopped⟩
  rw [List.takeWhile_append_of_pos inside, List.dropWhile_append_of_pos inside, cut.1, cut.2]
  exact ⟨List.append_nil run, rfl⟩

/-! ## What extraction finds -/

section

variable {stream field : List Char} {fields : List (List Char)}

theorem scanNumeral_of_words (words_eq : words isBlank stream = field :: fields)
    (numeral : IsNumeral field) :
    ∃ rest, scanNumeral stream = ⟨(takeSign field).1, (takeSign field).2, rest⟩ ∧
      words isBlank rest = fields := by
  obtain ⟨tail, front, nonempty, -, after, rest_eq⟩ := words_eq_cons words_eq
  have outside : ∀ char ∈ tail.head?, char.isDigit = false := by
    intro char member
    by_contra digit
    have blank := after char member
    rw [not_isBlank_of_isDigit (by simpa using digit)] at blank
    exact absurd blank (by simp)
  obtain ⟨taken, dropped⟩ := takeWhile_append_of_stop numeral.digits outside
  refine ⟨tail, ?_, rest_eq⟩
  rw [scanNumeral, front, takeSign_append nonempty]
  dsimp only
  rw [taken, dropped]

theorem extractUInt64_of_words (words_eq : words isBlank stream = field :: fields)
    (numeral : IsNumeral field) {value : UInt64} {rest : List Char}
    (extracted : extractUInt64 stream = some (value, rest)) :
    words isBlank rest = fields ∧
      (0 ≤ numeralValue field → (value.toNat : Int) = numeralValue field) := by
  obtain ⟨tail, scan_eq, rest_eq⟩ := scanNumeral_of_words words_eq numeral
  simp only [extractUInt64, scan_eq] at extracted
  split at extracted
  · exact absurd extracted (by simp)
  rename_i fits
  rw [not_or, not_le] at fits
  simp only [Option.some.injEq, Prod.mk.injEq] at extracted
  obtain ⟨rfl, rfl⟩ := extracted
  refine ⟨rest_eq, fun nonneg => ?_⟩
  have exact_value : (UInt64.ofNat (digitsValue (takeSign field).2)).toNat =
      digitsValue (takeSign field).2 := UInt64.toNat_ofNat_of_lt' fits.2
  unfold numeralValue signed at nonneg ⊢
  split at nonneg
  · -- A numeral with a minus sign is not negative only if it is zero.
    rename_i negative
    have zero : digitsValue (takeSign field).2 = 0 := by omega
    rw [if_pos negative, if_pos negative, zero]
    rfl
  · rename_i positive
    rw [if_neg positive, if_neg positive, exact_value]

theorem extractString_of_words (words_eq : words isBlank stream = field :: fields)
    {text : String} {rest : List Char} (extracted : extractString stream = some (text, rest)) :
    text = String.ofList field ∧ words isBlank rest = fields := by
  obtain ⟨tail, front, nonempty, solid, after, rest_eq⟩ := words_eq_cons words_eq
  have inside : ∀ char ∈ field, (! isBlank char) := by
    intro char member
    rw [solid char member]
    rfl
  have outside : ∀ char ∈ tail.head?, (! isBlank char) = false := by
    intro char member
    rw [after char member]
    rfl
  obtain ⟨taken, dropped⟩ := takeWhile_append_of_stop inside outside
  simp only [extractString, front, taken, dropped] at extracted
  rw [if_neg (by simp [nonempty])] at extracted
  simp only [Option.some.injEq, Prod.mk.injEq] at extracted
  exact ⟨extracted.1.symm, extracted.2 ▸ rest_eq⟩

theorem extractInt_of_words (words_eq : words isBlank stream = field :: fields)
    (numeral : IsNumeral field) (value : Int) :
    extractInt stream value = max (-2 ^ 31) (min (numeralValue field) (2 ^ 31 - 1)) := by
  obtain ⟨tail, scan_eq, -⟩ := scanNumeral_of_words words_eq numeral
  have more : stream.dropWhile isBlank ≠ [] := by
    intro ended
    rw [← words_dropWhile, ended, words_nil] at words_eq
    exact absurd words_eq (by simp)
  rw [extractInt, if_neg more, scan_eq]
  rfl

theorem extractInt_of_no_words (no_words : words isBlank stream = []) (value : Int) :
    extractInt stream value = value := by
  have ended := List.dropWhile_eq_nil_iff.mpr (words_eq_nil_iff.mp no_words)
  rw [extractInt, if_pos ended]

end

/-! ## What `int` finds -/

theorem foldl_digits_eq {digits : List Char} (start : Nat) :
    (digits.map fun char : Char => char.toNat - '0'.toNat).foldl
        (fun value digit => 10 * value + digit) start = Nat.ofDigitChars 10 digits start := by
  induction digits generalizing start with
  | nil => rfl
  | cons char digits induction => rw [List.map_cons, List.foldl_cons, induction,
      Nat.ofDigitChars_cons]

theorem decimalDigits_of_digits {digits : List Char} (nonempty : digits ≠ [])
    (ascii : ∀ char ∈ digits, char.isDigit) :
    decimalDigits interpreter digits =
      some (digits.map fun char : Char => char.toNat - '0'.toNat) := by
  have bounds : ∀ char ∈ digits, char.toNat < 128 ∧ char ≠ '_' := by
    intro char member
    have digit := ascii char member
    constructor
    · have bounds := isDigit_bounds digit
      omega
    · rintro rfl
      exact absurd digit (by decide)
  have whole : digits.splitOn '_' = [digits] :=
    List.splitOnP_eq_singleton fun char member => by simpa using (bounds char member).2
  rw [decimalDigits, whole, List.flatten_singleton]
  rw [if_neg (by simpa using nonempty.symm)]
  have each : ∀ char ∈ digits,
      interpreter.decimal char = some (char.toNat - '0'.toNat) := by
    intro char member
    rw [interpreter.decimal_ascii char (bounds char member).1, if_pos (ascii char member)]
  clear whole bounds ascii nonempty
  induction digits with
  | nil => rfl
  | cons char digits induction =>
      rw [List.mapM_cons, each char List.mem_cons_self,
        induction fun char member => each char (List.mem_cons_of_mem _ member)]
      rfl

theorem int_of_numeral {text : List Char} (solid : ∀ char ∈ text, isSpace char = false)
    (numeral : IsNumeral text) {value : Int} (parsed : int interpreter text = .ok value) :
    value = numeralValue text := by
  simp only [int, strip_eq_self solid,
    decimalDigits_of_digits numeral.nonempty numeral.digits] at parsed
  split at parsed
  · exact absurd parsed (by simp)
  · injection parsed with value_eq
    rw [← value_eq, foldl_digits_eq]
    rfl

/-! ## One line -/

theorem solid_of_mem_words {space : Char → Bool} {text field : List Char}
    (member : field ∈ words space text) : ∀ char ∈ field, space char = false := by
  generalize words_eq : words space text = fields at member
  induction fields generalizing text with
  | nil => exact absurd member List.not_mem_nil
  | cons head rest induction =>
      obtain ⟨tail, -, -, solid, -, rest_eq⟩ := words_eq_cons words_eq
      rcases List.mem_cons.mp member with rfl | later
      · exact solid
      · exact induction rest_eq later

/-- No white space but that of ASCII. -/
def AsciiSpaced (line : List Char) : Prop := ∀ char ∈ line, isSpace char → isBlank char

theorem words_isBlank {line : List Char} (spaced : AsciiSpaced line) :
    words isBlank line = splitSpaces line := by
  apply words_congr
  intro char member
  rw [Bool.eq_iff_iff]
  exact ⟨isSpace_of_isBlank, spaced char member⟩

/-- The fields of one line as the two parsers report them. -/
structure LineAgrees (dataFile : Option String) (line : List Char) (ref : SampleRef)
    (sample : Sample) : Prop where
  five : ∀ sid path off size label, splitSpaces line = [sid, path, off, size, label] →
    AsciiSpaced line → (∀ field ∈ [sid, off, size, label], IsNumeral field) →
      ref.path = sample.path ∧ (ref.offset.toNat : Int) = sample.off ∧
      (ref.size.toNat : Int) = sample.size ∧
      (0 ≤ sample.sid → (ref.sampleId.toNat : Int) = sample.sid) ∧
      (-2 ^ 31 ≤ sample.label → sample.label < 2 ^ 31 → ref.label = sample.label)
  four : ∀ sid off size label, splitSpaces line = [sid, off, size, label] →
    AsciiSpaced line → (∀ field ∈ [sid, off, size, label], IsNumeral field) →
      (ref.path = String.ofList off ∧ ref.label = -1 ∧ some sample.path = dataFile ∧
        sample.off = numeralValue off) ∧
      (ref.offset.toNat : Int) = sample.size ∧
      (0 ≤ sample.label → (ref.size.toNat : Int) = sample.label) ∧
      (0 ≤ sample.sid → (ref.sampleId.toNat : Int) = sample.sid)

/-- What Python accepts of a line that is not blank. -/
theorem parseIndexLine_inv {lineno : Nat} {line : List Char} {sample : Sample}
    (parsed : parseIndexLine interpreter dataFile lineno line = .ok (some sample)) :
    ∃ sid off size label, indexFields dataFile lineno (strip line) =
        .ok (sid, sample.path, off, size, label) ∧
      int interpreter sid = .ok sample.sid ∧ int interpreter off = .ok sample.off ∧
      int interpreter size = .ok sample.size ∧ int interpreter label = .ok sample.label ∧
      0 ≤ sample.off ∧ 0 < sample.size := by
  unfold parseIndexLine at parsed
  split at parsed
  · exact absurd parsed (by simp)
  obtain ⟨⟨sid, path, off, size, label⟩, fields_eq, parsed⟩ := bind_eq_ok.mp parsed
  obtain ⟨offValue, off_eq, parsed⟩ := bind_eq_ok.mp parsed
  obtain ⟨sizeValue, size_eq, parsed⟩ := bind_eq_ok.mp parsed
  split at parsed
  · exact absurd parsed (by simp)
  rename_i valid
  obtain ⟨sidValue, sid_eq, parsed⟩ := bind_eq_ok.mp parsed
  obtain ⟨labelValue, label_eq, parsed⟩ := bind_eq_ok.mp parsed
  have sample_eq : some _ = some sample := Except.ok.inj parsed
  obtain rfl := Option.some.inj sample_eq
  rw [not_or, not_lt, not_le] at valid
  exact ⟨sid, off, size, label, fields_eq, sid_eq, off_eq, size_eq, label_eq, valid⟩

/-- What C++ extracts from a line, in order. -/
theorem extractSampleRef_inv {line : List Char} {ref : SampleRef}
    (extracted : extractSampleRef line = some ref) :
    ∃ afterId afterPath afterOffset afterSize,
      extractUInt64 line = some (ref.sampleId, afterId) ∧
      extractString afterId = some (ref.path, afterPath) ∧
      extractUInt64 afterPath = some (ref.offset, afterOffset) ∧
      extractUInt64 afterOffset = some (ref.size, afterSize) ∧
      ref.label = extractInt afterSize (-1) := by
  simp only [extractSampleRef, Option.bind_eq_bind, Option.bind_eq_some_iff] at extracted
  obtain ⟨⟨sampleId, afterId⟩, id_eq, ⟨path, afterPath⟩, path_eq, ⟨offset, afterOffset⟩, offset_eq,
    ⟨size, afterSize⟩, size_eq, built⟩ := extracted
  obtain rfl := Option.some.inj built
  exact ⟨afterId, afterPath, afterOffset, afterSize, id_eq, path_eq, offset_eq, size_eq, rfl⟩

/-- What C++ makes of the words of a line, of which the first, third and fourth are numerals. -/
theorem extractSampleRef_of_words {line sid path off size : List Char} {fields : List (List Char)}
    {ref : SampleRef} (extracted : extractSampleRef line = some ref)
    (words_eq : words isBlank line = sid :: path :: off :: size :: fields)
    (sid_numeral : IsNumeral sid) (off_numeral : IsNumeral off) (size_numeral : IsNumeral size) :
    (0 ≤ numeralValue sid → (ref.sampleId.toNat : Int) = numeralValue sid) ∧
      ref.path = String.ofList path ∧
      (0 ≤ numeralValue off → (ref.offset.toNat : Int) = numeralValue off) ∧
      (0 ≤ numeralValue size → (ref.size.toNat : Int) = numeralValue size) ∧
      ∃ stream, words isBlank stream = fields ∧ ref.label = extractInt stream (-1) := by
  obtain ⟨afterId, afterPath, afterOffset, afterSize, id_eq, path_eq, offset_eq, size_eq, label_eq⟩ :=
    extractSampleRef_inv extracted
  -- The stream loses one word for each extraction.
  obtain ⟨words_eq, id_value⟩ := extractUInt64_of_words words_eq sid_numeral id_eq
  obtain ⟨path_value, words_eq⟩ := extractString_of_words words_eq path_eq
  obtain ⟨words_eq, offset_value⟩ := extractUInt64_of_words words_eq off_numeral offset_eq
  obtain ⟨words_eq, size_value⟩ := extractUInt64_of_words words_eq size_numeral size_eq
  exact ⟨id_value, path_value, offset_value, size_value, afterSize, words_eq, label_eq⟩

theorem indexFields_four {lineno : Nat} {line sid off size label : List Char}
    (line_eq : splitSpaces line = [sid, off, size, label])
    {fields : List Char × String × List Char × List Char × List Char}
    (accepted : indexFields dataFile lineno line = .ok fields) :
    ∃ path, dataFile = some path ∧ fields = (sid, path, off, size, label) := by
  rw [indexFields, line_eq] at accepted
  cases dataFile with
  | none => exact absurd accepted (by simp)
  | some path =>
      dsimp only at accepted
      split at accepted
      · exact absurd accepted (by simp)
      · exact ⟨path, rfl, (Except.ok.inj accepted).symm⟩

/-- Fields that both parsers accept. Python's `int` has the value of a numeral. -/
theorem lineAgrees_of_accepted {line piece : List Char} {lineno : Nat} {ref : SampleRef}
    {sample : Sample} (extracted : extractSampleRef line = some ref)
    (parsed : parseIndexLine interpreter dataFile lineno piece = .ok (some sample))
    (same : splitSpaces piece = splitSpaces line) : LineAgrees dataFile line ref sample := by
  obtain ⟨sidText, offText, sizeText, labelText, fields_eq, sid_int, off_int, size_int, label_int,
    off_nonneg, size_pos⟩ := parseIndexLine_inv parsed
  have solid : ∀ field ∈ splitSpaces line, ∀ char ∈ field, isSpace char = false :=
    fun field member => solid_of_mem_words member
  rw [← same, ← splitSpaces_strip] at solid
  constructor
  · intro sid path off size label line_eq spaced numerals
    have piece_eq : splitSpaces (strip piece) = [sid, path, off, size, label] := by
      rw [splitSpaces_strip, same, line_eq]
    rw [piece_eq] at solid
    simp only [List.forall_mem_cons] at numerals solid
    rw [indexFields, piece_eq] at fields_eq
    simp only [Except.ok.injEq, Prod.mk.injEq] at fields_eq
    obtain ⟨rfl, path_text, rfl, rfl, rfl⟩ := fields_eq
    obtain ⟨id_value, path_value, offset_value, size_value, stream, words_eq, label_eq⟩ :=
      extractSampleRef_of_words extracted ((words_isBlank spaced).trans line_eq) numerals.1
        numerals.2.1 numerals.2.2.1
    have label_value := extractInt_of_words words_eq numerals.2.2.2.1 (-1)
    rw [← int_of_numeral solid.1 numerals.1 sid_int] at id_value
    rw [← int_of_numeral solid.2.2.1 numerals.2.1 off_int] at offset_value
    rw [← int_of_numeral solid.2.2.2.1 numerals.2.2.1 size_int] at size_value
    rw [← int_of_numeral solid.2.2.2.2.1 numerals.2.2.2.1 label_int] at label_value
    refine ⟨path_value.trans path_text, offset_value off_nonneg, size_value size_pos.le, id_value,
      fun lower upper => ?_⟩
    rw [label_eq, label_value]
    omega
  · intro sid off size label line_eq spaced numerals
    have piece_eq : splitSpaces (strip piece) = [sid, off, size, label] := by
      rw [splitSpaces_strip, same, line_eq]
    rw [piece_eq] at solid
    simp only [List.forall_mem_cons] at numerals solid
    obtain ⟨path, file_eq, fields_eq⟩ := indexFields_four piece_eq fields_eq
    simp only [Prod.mk.injEq] at fields_eq
    obtain ⟨rfl, rfl, rfl, rfl, rfl⟩ := fields_eq
    obtain ⟨id_value, path_value, offset_value, size_value, stream, words_eq, label_eq⟩ :=
      extractSampleRef_of_words extracted ((words_isBlank spaced).trans line_eq) numerals.1
        numerals.2.2.1 numerals.2.2.2.1
    have label_value := extractInt_of_no_words words_eq (-1)
    rw [← int_of_numeral solid.1 numerals.1 sid_int] at id_value
    rw [← int_of_numeral solid.2.2.1 numerals.2.2.1 size_int] at offset_value
    rw [← int_of_numeral solid.2.2.2.1 numerals.2.2.2.1 label_int] at size_value
    exact ⟨⟨path_value, label_eq.trans label_value, file_eq.symm,
      int_of_numeral solid.2.1 numerals.2.1 off_int⟩, offset_value size_pos.le, size_value, id_value⟩

/-! ## Lines of a file -/

theorem readLines_forall₂ {ε σ : Type} {parse : Nat → List Char → Except ε (Option σ)}
    {keep : List Char → Bool}
    (skipped : ∀ lineno line, parse lineno line = .ok none → keep line = false)
    (kept : ∀ lineno line sample, parse lineno line = .ok (some sample) → keep line)
    {lines : List (List Char)} {lineno : Nat} {samples : List σ}
    (read : readLines parse lineno lines = .ok samples) :
    List.Forall₂ (fun line sample => ∃ lineno, parse lineno line = .ok (some sample))
      (lines.filter keep) samples := by
  induction lines generalizing lineno samples with
  | nil =>
      obtain rfl := Except.ok.inj read
      exact .nil
  | cons line lines induction =>
      obtain ⟨found, parsed, read⟩ := bind_eq_ok.mp read
      obtain ⟨later, readLater, read⟩ := bind_eq_ok.mp read
      obtain rfl := Except.ok.inj read
      cases found with
      | none =>
          rw [List.filter_cons_of_neg (by simp [skipped lineno line parsed])]
          exact induction readLater
      | some sample =>
          rw [List.filter_cons_of_pos (kept lineno line sample parsed)]
          exact .cons ⟨lineno, parsed⟩ (induction readLater)

theorem memTierDataset_forall₂ {text : List Char} {refs : List SampleRef}
    (accepted : memTierDataset text = .ok refs) :
    List.Forall₂ (fun line ref => extractSampleRef line = some ref)
      ((text.splitOn '\n').filter (· ≠ [])) refs := by
  have parsed : ∀ lineno line, parseSampleRef lineno line = .ok none → line = [] := by
    intro lineno line parsed
    unfold parseSampleRef at parsed
    split at parsed
    · assumption
    · split at parsed <;> exact absurd parsed (by simp)
  have extracted : ∀ lineno line ref, parseSampleRef lineno line = .ok (some ref) →
      line ≠ [] ∧ extractSampleRef line = some ref := by
    intro lineno line ref parsed
    unfold parseSampleRef at parsed
    split at parsed
    · exact absurd parsed (by simp)
    rename_i nonempty
    split at parsed
    · exact absurd parsed (by simp)
    · rename_i extracted
      obtain rfl := Option.some.inj (Except.ok.inj parsed)
      exact ⟨nonempty, extracted⟩
  apply (@readLines_forall₂ _ _ _ (· ≠ []) ?_ ?_ _ _ _ accepted).imp
  · rintro line ref ⟨lineno, parsed⟩
    exact (extracted lineno line ref parsed).2
  · intro lineno line skipped
    simpa using parsed lineno line skipped
  · intro lineno line ref found
    simpa using (extracted lineno line ref found).1

/-- Universal newlines cut a text at every newline and at every carriage return, but for empty
lines. -/
theorem universalNewlines_filter {keep : List Char → Bool} (empty : keep [] = false)
    (text : List Char) :
    ((universalNewlines text).splitOn '\n').filter keep =
      ((text.splitOn '\n').flatMap (List.splitOn '\r')).filter keep := by
  suffices shape : ∃ head left right,
      (universalNewlines text).splitOn '\n' = head :: left ∧
      (text.splitOn '\n').flatMap (List.splitOn '\r') = head :: right ∧
      left.filter keep = right.filter keep by
    obtain ⟨head, left, right, left_eq, right_eq, filter_eq⟩ := shape
    rw [left_eq, right_eq, List.filter_cons, List.filter_cons, filter_eq]
  have both : (text.splitOn '\n').flatMap (List.splitOn '\r') =
      text.splitOnP (fun char => char == '\n' || char == '\r') :=
    (splitOnP_or (· == '\n') (· == '\r') text).symm
  rw [both]
  clear both
  simp only [List.splitOn_eq_splitOnP]
  induction text using universalNewlines.induct with
  | case1 rest induction =>
      obtain ⟨head, left, right, left_eq, right_eq, filter_eq⟩ := induction
      refine ⟨[], head :: left, [] :: head :: right, ?_, ?_, ?_⟩
      · rw [universalNewlines, List.splitOnP_cons_eq_if_modifyHead, left_eq]
        rfl
      · rw [List.splitOnP_cons_eq_if_modifyHead, List.splitOnP_cons_eq_if_modifyHead, right_eq]
        rfl
      · rw [List.filter_cons_of_neg (p := keep) (a := []) (by simp [empty]), List.filter_cons,
          List.filter_cons, filter_eq]
  | case2 rest notNewline induction =>
      obtain ⟨head, left, right, left_eq, right_eq, filter_eq⟩ := induction
      refine ⟨[], head :: left, head :: right, ?_, ?_, ?_⟩
      · rw [universalNewlines, List.splitOnP_cons_eq_if_modifyHead, left_eq]
        · rfl
        · exact notNewline
      · rw [List.splitOnP_cons_eq_if_modifyHead, right_eq]
        rfl
      · rw [List.filter_cons, List.filter_cons, filter_eq]
  | case3 char rest notReturn notReturn' induction =>
      obtain ⟨head, left, right, left_eq, right_eq, filter_eq⟩ := induction
      rw [universalNewlines, List.splitOnP_cons_eq_if_modifyHead,
        List.splitOnP_cons_eq_if_modifyHead, left_eq, right_eq]
      · by_cases newline : char = '\n'
        · refine ⟨[], head :: left, head :: right, by simp [newline], by simp [newline], ?_⟩
          rw [List.filter_cons, List.filter_cons, filter_eq]
        · have different : char ≠ '\r' := notReturn'
          exact ⟨char :: head, left, right, by simp [newline], by simp [newline, different],
            filter_eq⟩
      · exact notReturn
      · exact notReturn'
  | case4 => exact ⟨[], [], [], rfl, rfl, rfl⟩

theorem parseIndex_forall₂ {text : List Char} {samples : List Sample}
    (accepted : parseIndex interpreter dataFile text = .ok samples) :
    List.Forall₂ (fun part sample =>
        ∃ lineno, parseIndexLine interpreter dataFile lineno part = .ok (some sample))
      (((text.splitOn '\n').flatMap (List.splitOn '\r')).filter (splitSpaces · ≠ [])) samples := by
  have empty : decide (splitSpaces [] ≠ []) = false := by rfl
  rw [← universalNewlines_filter empty]
  refine readLines_forall₂ ?_ ?_ accepted
  · intro lineno line skipped
    by_contra solid
    rw [parseIndexLine, if_neg] at skipped
    · obtain ⟨fields, -, skipped⟩ := bind_eq_ok.mp skipped
      obtain ⟨off, -, skipped⟩ := bind_eq_ok.mp skipped
      obtain ⟨size, -, skipped⟩ := bind_eq_ok.mp skipped
      split at skipped
      · exact absurd skipped (by simp)
      · obtain ⟨sid, -, skipped⟩ := bind_eq_ok.mp skipped
        obtain ⟨label, -, skipped⟩ := bind_eq_ok.mp skipped
        exact absurd (Except.ok.inj skipped) (by simp)
    · rw [strip_eq_nil_iff]
      simpa using solid
  · intro lineno line sample found
    rw [decide_eq_true_iff]
    intro blank
    rw [parseIndexLine, if_pos (strip_eq_nil_iff.mpr blank)] at found
    exact absurd (Except.ok.inj found) (by simp)

/-! ## One record a line -/

/-- Carriage returns do not keep two records apart. -/
def OneRecord (line : List Char) : Prop :=
  ((line.splitOn '\r').filter (splitSpaces · ≠ [])).length ≤ 1

theorem splitSpaces_parts (line : List Char) :
    (line.splitOn '\r').flatMap splitSpaces = splitSpaces line := by
  refine @flatMap_words_splitOnP _ (· == '\r') isSpace (fun char isReturn => ?_) line
  rw [eq_of_beq isReturn]
  rfl

theorem flatMap_filter_ne_nil {lists : List (List Char)} :
    (lists.filter (splitSpaces · ≠ [])).flatMap splitSpaces = lists.flatMap splitSpaces := by
  induction lists with
  | nil => rfl
  | cons list lists induction =>
      by_cases blank : splitSpaces list = []
      · rw [List.filter_cons_of_neg (by simp [blank]), induction, List.flatMap_cons, blank,
          List.nil_append]
      · rw [List.filter_cons_of_pos (by simp [blank]), List.flatMap_cons, induction,
          List.flatMap_cons]

theorem mem_of_mem_scanNumeral {stream : List Char} {char : Char}
    (member : char ∈ (scanNumeral stream).digits) : char ∈ stream := by
  have unsigned := List.takeWhile_subset _ member
  have trimmed : char ∈ stream.dropWhile isBlank := by
    generalize stream.dropWhile isBlank = text at unsigned
    cases text with
    | nil => exact unsigned
    | cons head rest =>
        rw [takeSign] at unsigned
        split_ifs at unsigned
        · exact List.mem_cons_of_mem _ unsigned
        · exact List.mem_cons_of_mem _ unsigned
        · exact unsigned
  exact (List.dropWhile_sublist _).subset trimmed

/-- A line with an id is not blank. -/
theorem splitSpaces_ne_nil_of_extracted {line : List Char} {ref : SampleRef}
    (extracted : extractSampleRef line = some ref) : splitSpaces line ≠ [] := by
  obtain ⟨_, _, _, _, id_eq, -⟩ := extractSampleRef_inv extracted
  intro blank
  simp only [extractUInt64] at id_eq
  split at id_eq
  · exact absurd id_eq (by simp)
  rename_i digits
  obtain ⟨digit, others, digits_eq⟩ := List.exists_cons_of_ne_nil (not_or.mp digits).1
  have member : digit ∈ (scanNumeral line).digits := by simp [digits_eq]
  have space := words_eq_nil_iff.mp blank digit (mem_of_mem_scanNumeral member)
  rw [not_isSpace_of_isDigit (List.mem_takeWhile_imp member)] at space
  exact absurd space (by simp)

theorem records_forall₂ {lines : List (List Char)} {refs : List SampleRef}
    (extracted : List.Forall₂ (fun line ref => extractSampleRef line = some ref)
      (lines.filter (· ≠ [])) refs)
    (oneRecord : ∀ line ∈ lines, OneRecord line) :
    List.Forall₂ (fun line part => splitSpaces part = splitSpaces line) (lines.filter (· ≠ []))
      ((lines.flatMap (List.splitOn '\r')).filter (splitSpaces · ≠ [])) := by
  induction lines generalizing refs with
  | nil => exact .nil
  | cons line lines induction =>
      rw [List.forall_mem_cons] at oneRecord
      rw [List.flatMap_cons, List.filter_append]
      by_cases empty : line = []
      · rw [List.filter_cons_of_neg (by simp [empty])] at extracted ⊢
        have parts : ((line.splitOn '\r').filter (splitSpaces · ≠ [])) = [] := by
          rw [empty]
          rfl
        rw [parts, List.nil_append]
        exact induction extracted oneRecord.2
      · rw [List.filter_cons_of_pos (by simp [empty])] at extracted ⊢
        obtain ⟨ref, later, first, rest, rfl⟩ := List.forall₂_cons_left_iff.mp extracted
        have whole := (@flatMap_filter_ne_nil (line.splitOn '\r')).trans
          (splitSpaces_parts line)
        have most := oneRecord.1
        unfold OneRecord at most
        cases parts_eq : (line.splitOn '\r').filter (splitSpaces · ≠ []) with
        | nil =>
            rw [parts_eq] at whole
            exact absurd whole.symm (splitSpaces_ne_nil_of_extracted first)
        | cons part parts =>
            rw [parts_eq, List.length_cons] at most
            obtain rfl : parts = [] := List.length_eq_zero_iff.mp (by omega)
            rw [parts_eq, List.flatMap_singleton] at whole
            exact .cons whole (induction rest oneRecord.2)

/-! ## Two parsers, one file -/

/-- Two parsers that accept an index file find the same number of samples, one in each line that is
not empty, and agree on every line of five fields; in a line of four fields the C++ parser reads a
path and no label, the Python parser a label and no path. -/
theorem parsers_agree (interpreter : Interpreter) (dataFile : Option String) (text : List Char)
    (refs : List SampleRef) (samples : List Sample)
    (cppAccepts : memTierDataset text = .ok refs)
    (pythonAccepts : parseIndex interpreter dataFile text = .ok samples)
    (oneRecord : ∀ line ∈ text.splitOn '\n', OneRecord line) :
    refs.length = ((text.splitOn '\n').filter (· ≠ [])).length ∧ samples.length = refs.length ∧
      ∀ (i : Nat) line ref sample, ((text.splitOn '\n').filter (· ≠ []))[i]? = some line →
        refs[i]? = some ref → samples[i]? = some sample → LineAgrees dataFile line ref sample := by
  have extracted := memTierDataset_forall₂ cppAccepts
  have parsed := parseIndex_forall₂ pythonAccepts
  have records := records_forall₂ extracted oneRecord
  refine ⟨extracted.length_eq.symm, ?_, ?_⟩
  · rw [← parsed.length_eq, ← records.length_eq, extracted.length_eq]
  · intro i line ref sample line_eq ref_eq sample_eq
    obtain ⟨lineBound, rfl⟩ := List.getElem?_eq_some_iff.mp line_eq
    obtain ⟨refBound, rfl⟩ := List.getElem?_eq_some_iff.mp ref_eq
    obtain ⟨sampleBound, rfl⟩ := List.getElem?_eq_some_iff.mp sample_eq
    have partBound := records.length_eq ▸ lineBound
    obtain ⟨lineno, parsed⟩ := parsed.get partBound sampleBound
    exact lineAgrees_of_accepted (extracted.get lineBound refBound) parsed
      (records.get lineBound partBound)

/-! ## Concrete indexes -/

/-- An interpreter that knows the digits of ASCII only. -/
def asciiInterpreter : Interpreter where
  decimal char := if char.isDigit then some (char.toNat - '0'.toNat) else none
  decimal_ascii _ _ := rfl
  maxStrDigits := 4300

/-- A line of five fields and a line of four. -/
def mixedIndex : List Char := "0 a.bin 0 4096 3\n\n 1\t4096 512 7\r\n".toList

def mixedRefs : List SampleRef := [⟨0, "a.bin", 0, 4096, 3⟩, ⟨1, "4096", 512, 7, -1⟩]

def mixedSamples : List Sample := [⟨0, "a.bin", 0, 4096, 3⟩, ⟨1, "train.bin", 4096, 512, 7⟩]

theorem parsers_agree_mixed :
    mixedRefs.length = ((mixedIndex.splitOn '\n').filter (· ≠ [])).length ∧
      mixedSamples.length = mixedRefs.length ∧
      ∀ (i : Nat) line ref sample, ((mixedIndex.splitOn '\n').filter (· ≠ []))[i]? = some line →
        mixedRefs[i]? = some ref → mixedSamples[i]? = some sample →
          LineAgrees (some "train.bin") line ref sample :=
  parsers_agree asciiInterpreter (some "train.bin") mixedIndex mixedRefs mixedSamples
    (by decide +kernel) (by decide +kernel) (by unfold OneRecord; decide +kernel)

/-- A C++ sample with its numbers as Python has them. -/
def SampleRef.toSample (ref : SampleRef) : Sample where
  sid := ref.sampleId.toNat
  path := ref.path
  off := ref.offset.toNat
  size := ref.size.toNat
  label := ref.label

/-- An index of offsets, sizes and labels into one data file. -/
def formatB : List Char := "0 0 4096 3\n1 4096 4096 7\n".toList

/-- Both parsers accept such an index and make different samples of it. -/
theorem parsers_disagree :
    ¬ ∀ refs samples, memTierDataset formatB = .ok refs →
      parseIndex asciiInterpreter (some "train.bin") formatB = .ok samples →
        refs.map SampleRef.toSample = samples := by
  intro agree
  have same := agree [⟨0, "0", 4096, 3, -1⟩, ⟨1, "4096", 4096, 7, -1⟩]
    [⟨0, "train.bin", 0, 4096, 3⟩, ⟨1, "train.bin", 4096, 4096, 7⟩] (by decide +kernel)
    (by decide +kernel)
  exact absurd same (by decide)

end MemTier.Dataset
