import Mathlib.Data.List.Basic
import Mathlib.Data.List.TakeWhile
import ForkReplay.Json.Reader
import ForkReplay.Json.Writer

/-!
# JSON text read back

The reader accepts what the writer produces: a value whose objects have distinct names
is read back from its compact text, whatever strings it holds, as long as it is not nested
too deeply and its numbers are no larger than a double.
-/

namespace ForkReplay.Json

/-- A value that JSON text of so many levels can spell: the names in an object are distinct,
an integer is in the range of a double, and a number that is no integer is kept by a text of
its own. -/
inductive Tidy : Nat → Json → Prop where
  | null {levels : Nat} : Tidy levels .null
  | bool {levels : Nat} (value : Bool) : Tidy levels (.bool value)
  | int {levels : Nat} {value : Int} (hrange : value.natAbs < doubleLimit) :
      Tidy levels (.int value)
  | decimal {levels : Nat} {text : String}
      (hread : number? text.toList = some (.decimal text, [])) : Tidy levels (.decimal text)
  | string {levels : Nat} (value : String) : Tidy levels (.string value)
  | array {levels : Nat} {items : List Json} (hitems : ∀ item ∈ items, Tidy levels item) :
      Tidy (levels + 1) (.array items)
  | object {levels : Nat} {members : List (String × Json)}
      (hnames : (members.map Prod.fst).Nodup)
      (hmembers : ∀ entry ∈ members, Tidy levels entry.2) : Tidy (levels + 1) (.object members)

/-! ## Quoted strings -/

theorem escape?_control {c : Char} (h : c.toNat < 0x20) (rest : List Char) :
    escape? ('u' :: '0' :: '0' :: Text.Hex.digit (c.toNat / 16) ::
      Text.Hex.digit (c.toNat % 16) :: rest) = some (c, rest) := by
  have hnumber : ∀ value < 0x20, Text.Hex.number? ['0', '0', Text.Hex.digit (value / 16),
      Text.Hex.digit (value % 16)] = some value := by
    decide
  have hsmall : c.toNat < 0xd800 := by omega
  simp [escape?, unit?, hnumber _ h, hsmall, Char.ofNat_toNat]

/-- What is written for a character is read back as that character. -/
theorem quoted?_escapeChar (fuel : Nat) (read : List Char) (c : Char) (rest : List Char) :
    quoted? (fuel + 1) read (escapeChar c ++ rest) = quoted? fuel (c :: read) rest := by
  unfold escapeChar
  split
  case h_8 hquote hslash _ _ _ _ _ =>
    split
    next hcontrol =>
      simp only [List.cons_append, List.nil_append, quoted?, escape?_control hcontrol]
    next hplain =>
      rw [List.cons_append, List.nil_append, quoted?]
      · rw [if_neg hplain]
      · exact hquote
      · exact hslash
  all_goals rfl

theorem quoted?_flatMap_escapeChar {fuel : Nat} (read chars rest : List Char)
    (hfuel : chars.length < fuel) :
    quoted? fuel read (chars.flatMap escapeChar ++ '"' :: rest) =
      some (String.ofList (read.reverse ++ chars), rest) := by
  induction chars generalizing fuel read with
  | nil =>
      cases fuel with
      | zero => simp at hfuel
      | succ fuel => simp [quoted?]
  | cons c chars ih =>
      cases fuel with
      | zero => simp at hfuel
      | succ fuel =>
          rw [List.flatMap_cons, List.append_assoc, quoted?_escapeChar, ih _ (by simpa using hfuel)]
          simp

theorem length_le_length_flatMap_escapeChar (chars : List Char) :
    chars.length ≤ (chars.flatMap escapeChar).length := by
  induction chars with
  | nil => exact Nat.le_refl 0
  | cons c chars ih =>
      have hpos : 1 ≤ (escapeChar c).length := by
        unfold escapeChar
        split
        case h_8 => split <;> simp
        all_goals simp
      rw [List.flatMap_cons, List.length_append, List.length_cons]
      omega

theorem toList_quote (s : String) :
    (quote s).toList = '"' :: (s.toList.flatMap escapeChar ++ ['"']) := by
  simp only [quote, String.toList_append, String.toList_ofList]
  rfl

/-- A quoted string is read back, whatever follows it. -/
theorem quoted?_quote (s : String) (rest : List Char) :
    quoted? ((s.toList.flatMap escapeChar ++ '"' :: rest).length + 1) []
      (s.toList.flatMap escapeChar ++ '"' :: rest) = some (s, rest) := by
  have hlength := length_le_length_flatMap_escapeChar s.toList
  rw [quoted?_flatMap_escapeChar]
  · simp
  · rw [List.length_append]
    omega

/-! ## Numbers -/

/-- No digit, fraction or exponent follows. -/
def Ends (rest : List Char) : Prop :=
  ∀ c ∈ rest.head?, c.isDigit = false ∧ c ≠ '.' ∧ c ≠ 'e' ∧ c ≠ 'E'

theorem ends_nil : Ends [] := by simp [Ends]

theorem ends_cons {c : Char} (hc : c = ',' ∨ c = ']' ∨ c = '\x7d') (rest : List Char) :
    Ends (c :: rest) := by
  rintro _ ⟨⟩
  rcases hc with rfl | rfl | rfl
  all_goals decide

section Followed

variable {chars rest left : List Char}

theorem splitDigits_append (hrest : Ends rest) (chars : List Char) :
    splitDigits (chars ++ rest) = ((splitDigits chars).1, (splitDigits chars).2 ++ rest) := by
  induction chars with
  | nil =>
      cases rest with
      | nil => rfl
      | cons c rest => simp [splitDigits, (hrest c rfl).1]
  | cons c chars ih =>
      simp only [splitDigits, Prod.mk.injEq] at ih ⊢
      by_cases hc : c.isDigit = true
      · simp [hc, ih.1, ih.2]
      · simp [hc]

theorem fraction?_append (hrest : Ends rest) {fraction : List Char}
    (h : fraction? chars = some (fraction, left)) :
    fraction? (chars ++ rest) = some (fraction, left ++ rest) := by
  unfold fraction? at h
  split at h
  next chars =>
    rw [List.cons_append, fraction?, splitDigits_append hrest]
    dsimp only at h ⊢
    split at h
    next => cases h
    next hdigits =>
      cases h
      rw [if_neg hdigits]
  next hpoint =>
    cases h
    cases chars with
    | nil =>
        cases rest with
        | nil => rfl
        | cons c rest =>
            rw [List.nil_append, fraction?]
            rintro _ ⟨⟩
            exact (hrest _ rfl).2.1 rfl
    | cons c chars =>
        rw [List.cons_append, fraction?]
        rintro _ ⟨⟩
        exact hpoint _ rfl

/-- A sign and what follows it, as an exponent has them. -/
theorem exponent?_cons {mark : Char} (hmark : (mark == 'e' || mark == 'E') = true)
    (chars : List Char) :
    ∃ sign chars', (∀ rest, chars ≠ [] ∨ rest = [] →
      exponent? (mark :: (chars ++ rest)) =
        if (splitDigits (chars' ++ rest)).1.isEmpty then none
        else some (mark :: sign ++ (splitDigits (chars' ++ rest)).1,
          (splitDigits (chars' ++ rest)).2)) := by
  rcases chars with _ | ⟨c, chars⟩
  · refine ⟨[], [], fun rest hrest => ?_⟩
    obtain rfl : rest = [] := by simpa using hrest
    simp [exponent?, hmark, splitDigits]
  · by_cases hplus : c = '+'
    · subst hplus
      exact ⟨['+'], chars, fun rest _ => by simp [exponent?, hmark]⟩
    · by_cases hminus : c = '-'
      · subst hminus
        exact ⟨['-'], chars, fun rest _ => by simp [exponent?, hmark]⟩
      · exact ⟨[], c :: chars, fun rest _ => by simp [exponent?, hmark, hplus, hminus]⟩

theorem exponent?_append (hrest : Ends rest) {exponent : List Char}
    (h : exponent? chars = some (exponent, left)) :
    exponent? (chars ++ rest) = some (exponent, left ++ rest) := by
  rcases chars with _ | ⟨mark, chars⟩
  · cases h
    cases rest with
    | nil => rfl
    | cons c rest =>
        obtain ⟨-, -, he, hE⟩ := hrest c rfl
        simp [exponent?, he, hE]
  · by_cases hmark : (mark == 'e' || mark == 'E') = true
    · obtain ⟨sign, chars', hread⟩ := exponent?_cons hmark chars
      have hchars : chars ≠ [] := by
        rintro rfl
        simp [exponent?, hmark, splitDigits] at h
      have h' := hread [] (.inr rfl)
      rw [List.append_nil, List.append_nil, h] at h'
      rw [List.cons_append, hread rest (.inl hchars), splitDigits_append hrest]
      dsimp only
      split at h'
      next => cases h'
      next hdigits =>
        cases h'
        rw [if_neg hdigits]
    · simp only [Bool.not_eq_true] at hmark
      unfold exponent? at h ⊢
      simp only [hmark] at h ⊢
      cases h
      simp [hmark]

/-- What follows the sign of a number. -/
def numeral? (sign chars : List Char) : Option (Json × List Char) :=
  let (digits, rest) := splitDigits chars
  if digits.isEmpty || (digits.length > 1 && digits.head? == some '0') then none
  else do
    let (fraction, rest) ← fraction? rest
    let (exponent, rest) ← exponent? rest
    let value := decimalValue digits
    let places := fraction.drop 1
    if isTooLarge (decimalValue (digits ++ places)) (digits.length + places.length)
        (exponentValue exponent - places.length) then none
    else if fraction.isEmpty && exponent.isEmpty && (sign.isEmpty || value != 0) then
      return (.int (if sign.isEmpty then (value : Int) else -(value : Int)), rest)
    else
      return (.decimal (String.ofList (sign ++ digits ++ fraction ++ exponent)), rest)

theorem number?_minus (chars : List Char) : number? ('-' :: chars) = numeral? ['-'] chars := rfl

theorem number?_of_ne {c : Char} (hc : c ≠ '-') (chars : List Char) :
    number? (c :: chars) = numeral? [] (c :: chars) := by
  unfold number?
  split
  next hsign =>
    split at hsign
    next heq => exact absurd (List.cons.inj heq).1 hc
    next =>
      cases hsign
      rfl

theorem numeral?_append (hrest : Ends rest) {sign : List Char} {json : Json}
    (h : numeral? sign chars = some (json, left)) :
    numeral? sign (chars ++ rest) = some (json, left ++ rest) := by
  unfold numeral? at h ⊢
  rw [splitDigits_append hrest]
  dsimp only at h ⊢
  split at h
  next => cases h
  next hdigits =>
    rw [if_neg hdigits]
    simp only [Option.bind_eq_bind, Option.bind_eq_some_iff, Prod.exists] at h ⊢
    obtain ⟨fraction, after, hfraction, exponent, last, hexponent, hvalue⟩ := h
    refine ⟨fraction, after ++ rest, fraction?_append hrest hfraction, exponent, last ++ rest,
      exponent?_append hrest hexponent, ?_⟩
    split at hvalue
    next => cases hvalue
    next hrange =>
      rw [if_neg hrange]
      split at hvalue
      next hint =>
        cases hvalue
        rw [if_pos hint]
        rfl
      next hint =>
        cases hvalue
        rw [if_neg hint]
        rfl

/-- A number that is read to the end of a text is read in front of anything that ends it. -/
theorem number?_append (hrest : Ends rest) {json : Json} (h : number? chars = some (json, left)) :
    number? (chars ++ rest) = some (json, left ++ rest) := by
  rcases chars with _ | ⟨c, chars⟩
  · cases h
  · by_cases hc : c = '-'
    · subst hc
      rw [number?_minus] at h
      rw [List.cons_append, number?_minus]
      exact numeral?_append hrest h
    · rw [number?_of_ne hc] at h
      rw [List.cons_append, number?_of_ne hc]
      exact numeral?_append hrest h

end Followed

theorem decimalValue_toDigits (value : Nat) : decimalValue (Nat.toDigits 10 value) = value := by
  have hvalue := Nat.ofDigitChars_toDigits (b := 10) (n := value) (by omega) (by omega)
  simpa only [decimalValue, Nat.ofDigitChars_eq_foldl, Nat.mul_comm] using hvalue

/-- Only zero is written with a leading zero. -/
theorem head?_toDigits {value : Nat} (hvalue : value ≠ 0) :
    (Nat.toDigits 10 value).head? ≠ some '0' := by
  induction value using Nat.strongRecOn with
  | ind value ih =>
      rw [Nat.toDigits_eq_if (by omega)]
      split
      next hsmall =>
        have hdigit : ∀ digit < 10, digit ≠ 0 → [Nat.digitChar digit].head? ≠ some '0' := by decide
        exact hdigit value hsmall hvalue
      next hlarge =>
        rw [List.head?_append_of_ne_nil _ Nat.toDigits_ne_nil]
        exact ih (value / 10) (by omega) (by omega)

theorem isTooLarge_of_lt {value : Nat} (hrange : value < doubleLimit) (digits : Nat) :
    isTooLarge value digits 0 = false := by
  change (value != 0 && (decide (308 < 0) || decide (doubleLimit ≤ value * Nat.pow 10 0))) = false
  simp [hrange]

theorem numeral?_toDigits {sign : List Char} {value : Nat} (hsign : sign = [] ∨ value ≠ 0)
    (hrange : value < doubleLimit) :
    numeral? sign (Nat.toDigits 10 value) =
      some (.int (if sign.isEmpty then (value : Int) else -(value : Int)), []) := by
  have hall : ∀ c ∈ Nat.toDigits 10 value, c.isDigit = true := fun c hc =>
    Nat.isDigit_of_mem_toDigits (by omega) (by omega) hc
  have hsplit : splitDigits (Nat.toDigits 10 value) = (Nat.toDigits 10 value, []) := by
    rw [splitDigits, List.takeWhile_eq_self_iff.mpr hall, List.dropWhile_eq_nil_iff.mpr hall]
  have hempty : (Nat.toDigits 10 value).isEmpty = false := by
    simp [Nat.toDigits_ne_nil]
  have hleading : ((Nat.toDigits 10 value).length > 1 &&
      (Nat.toDigits 10 value).head? == some '0') = false := by
    by_cases hvalue : value = 0
    · subst hvalue
      decide
    · simp [head?_toDigits hvalue]
  have hint : (sign.isEmpty || value != 0) = true := by
    rcases hsign with rfl | hvalue
    · rfl
    · simp [hvalue]
  simp [numeral?, hsplit, hempty, hleading, fraction?, exponent?, exponentValue,
    decimalValue_toDigits, isTooLarge_of_lt hrange, hint]

theorem number?_toString {value : Int} (hrange : value.natAbs < doubleLimit) :
    number? (toString value).toList = some (.int value, []) := by
  cases value with
  | ofNat value =>
      change value < doubleLimit at hrange
      have htext : (toString (Int.ofNat value)).toList = Nat.toDigits 10 value := by
        change (Nat.repr value).toList = _
        rw [Nat.repr_eq_ofList_toDigits, String.toList_ofList]
      rw [htext]
      rcases hdigits : Nat.toDigits 10 value with _ | ⟨c, rest⟩
      · exact absurd hdigits Nat.toDigits_ne_nil
      · have hc : c.isDigit = true :=
          Nat.isDigit_of_mem_toDigits (b := 10) (n := value) (by omega) (by omega)
            (hdigits ▸ List.mem_cons_self)
        rw [number?_of_ne (by rintro rfl; exact absurd hc (by decide)), ← hdigits,
          numeral?_toDigits (.inl rfl) hrange]
        rfl
  | negSucc value =>
      have htext : (toString (Int.negSucc value)).toList = '-' :: Nat.toDigits 10 (value + 1) := by
        change ("-" ++ Nat.repr (value + 1)).toList = _
        rw [String.toList_append, Nat.repr_eq_ofList_toDigits]
        exact congrArg _ String.toList_ofList
      rw [htext, number?_minus, numeral?_toDigits (.inr (Nat.succ_ne_zero value)) hrange]
      rfl

/-! ## Values -/

theorem number?_start {chars : List Char} {json : Json} {rest : List Char}
    (h : number? chars = some (json, rest)) :
    ∃ c tail, chars = c :: tail ∧ (c = '-' ∨ c.isDigit = true) := by
  rcases chars with _ | ⟨c, tail⟩
  · cases h
  · refine ⟨c, tail, rfl, ?_⟩
    by_cases hc : c = '-'
    · exact .inl hc
    · rw [number?_of_ne hc, numeral?, splitDigits] at h
      by_cases hdigit : c.isDigit = true
      · exact .inr hdigit
      · simp [hdigit] at h

theorem isSpace_of_start {c : Char} (h : c = '-' ∨ c.isDigit = true) : isSpace c = false := by
  rcases h with rfl | h
  · rfl
  · rw [isSpace]
    simp only [Bool.or_eq_false_iff, beq_eq_false_iff_ne]
    refine ⟨⟨⟨?_, ?_⟩, ?_⟩, ?_⟩
    all_goals
      rintro rfl
      exact absurd h (by decide)

theorem skipSpace_of_start {c : Char} (h : isSpace c = false) (tail : List Char) :
    skipSpace (c :: tail) = c :: tail := by
  simp [skipSpace, h]

theorem value?_number {chars : List Char} {json : Json} {rest : List Char}
    (h : number? chars = some (json, rest)) (levels fuel : Nat) :
    value? levels (fuel + 1) chars = some (json, rest) := by
  obtain ⟨c, tail, rfl, hstart⟩ := number?_start h
  rw [value?, skipSpace_of_start (isSpace_of_start hstart)]
  have hne : ∀ d : Char, (d = '-' ∨ d.isDigit = true) → d ≠ '\x7b' ∧ d ≠ '[' ∧ d ≠ '"' ∧
      d ≠ 'n' ∧ d ≠ 't' ∧ d ≠ 'f' := by
    rintro d (rfl | hd)
    · decide
    · refine ⟨?_, ?_, ?_, ?_, ?_, ?_⟩
      all_goals
        rintro rfl
        exact absurd hd (by decide)
  obtain ⟨h1, h2, h3, h4, h5, h6⟩ := hne c hstart
  simp [h1, h2, h3, h4, h5, h6, h]

/-- The texts of further items or members, each after its comma. -/
def commaEach (texts : List String) : List Char := texts.flatMap fun text => ',' :: text.toList

theorem toList_intercalate_comma (text : String) (texts : List String) :
    (",".intercalate (text :: texts)).toList = text.toList ++ commaEach texts := by
  rw [String.toList_intercalate, List.map_cons]
  induction texts generalizing text with
  | nil => simp [commaEach]
  | cons next texts ih =>
      rw [List.map_cons, List.intercalate_cons_cons, ih]
      simp [commaEach]

theorem compactItems_eq_map (items : List Json) : compactItems items = items.map compact := by
  induction items with
  | nil => rfl
  | cons item items ih => rw [compactItems, ih, List.map_cons]

/-- A member on one line. -/
def compactMember (entry : String × Json) : String := quote entry.1 ++ ":" ++ compact entry.2

theorem compactMembers_eq_map (members : List (String × Json)) :
    compactMembers members = members.map compactMember := by
  induction members with
  | nil => rfl
  | cons entry members ih => rw [compactMembers, ih, List.map_cons, compactMember]

theorem toList_compact_array (item : Json) (items : List Json) :
    (compact (.array (item :: items))).toList =
      '[' :: ((compact item).toList ++ commaEach (items.map compact) ++ [']']) := by
  rw [compact, compactItems_eq_map, List.map_cons, String.toList_append, String.toList_append,
    toList_intercalate_comma]
  rfl

theorem toList_compact_object (entry : String × Json) (members : List (String × Json)) :
    (compact (.object (entry :: members))).toList =
      '\x7b' :: ((compactMember entry).toList ++ commaEach (members.map compactMember) ++
        ['\x7d']) := by
  have hopen : ("\x7b" : String).toList = ['\x7b'] := rfl
  have hclose : ("\x7d" : String).toList = ['\x7d'] := rfl
  rw [compact, compactMembers_eq_map, List.map_cons, String.toList_append, String.toList_append,
    toList_intercalate_comma, hopen, hclose, List.singleton_append, List.cons_append]

theorem toList_compactMember (entry : String × Json) :
    (compactMember entry).toList =
      '"' :: (entry.1.toList.flatMap escapeChar ++ '"' :: ':' :: (compact entry.2).toList) := by
  simp [compactMember, toList_quote]

/-- The text of a value starts with neither a blank nor a closing bracket. -/
theorem compact_start {levels : Nat} {json : Json} (h : json.Tidy levels) :
    ∃ c tail, (compact json).toList = c :: tail ∧ isSpace c = false ∧ c ≠ ']' := by
  have hnumber {text : List Char} {json : Json} (hread : number? text = some (json, [])) :
      ∃ c tail, text = c :: tail ∧ isSpace c = false ∧ c ≠ ']' := by
    obtain ⟨c, tail, rfl, hstart⟩ := number?_start hread
    refine ⟨c, tail, rfl, isSpace_of_start hstart, ?_⟩
    rintro rfl
    revert hstart
    decide
  cases h with
  | null => exact ⟨'n', _, rfl, rfl, by decide⟩
  | bool value =>
      cases value with
      | true => exact ⟨'t', _, rfl, rfl, by decide⟩
      | false => exact ⟨'f', _, rfl, rfl, by decide⟩
  | int hrange => exact hnumber (number?_toString hrange)
  | decimal hread => exact hnumber hread
  | string value => exact ⟨'"', _, toList_quote value, rfl, by decide⟩
  | @array _ items hitems =>
      cases items with
      | nil => exact ⟨'[', [']'], rfl, rfl, by decide⟩
      | cons item items => exact ⟨'[', _, toList_compact_array item items, rfl, by decide⟩
  | @object _ members hnames hmembers =>
      cases members with
      | nil => exact ⟨'\x7b', ['\x7d'], rfl, rfl, by decide⟩
      | cons entry members => exact ⟨'\x7b', _, toList_compact_object entry members, rfl, by decide⟩

/-- The value is read from its text in front of anything that ends it, with so many levels
and as much fuel as the text has characters. -/
def ReadsBack (levels : Nat) (json : Json) : Prop :=
  ∀ fuel rest, Ends rest → (compact json).toList.length ≤ fuel →
    value? levels fuel ((compact json).toList ++ rest) = some (json, rest)

variable {levels : Nat}

/-- What may follow the first item or member. -/
theorem ends_commaEach {close : Char} (hclose : close = ']' ∨ close = '\x7d')
    (texts : List String) (rest : List Char) : Ends (commaEach texts ++ close :: rest) := by
  cases texts with
  | nil => exact ends_cons (.inr hclose) rest
  | cons text texts => exact ends_cons (.inl rfl) _

theorem items?_compact {item : Json} {items : List Json}
    (h : ∀ entry ∈ item :: items, ReadsBack levels entry) (fuel : Nat) (read : List Json)
    (rest : List Char)
    (hfuel : ((compact item).toList ++ commaEach (items.map compact)).length < fuel) :
    items? levels fuel read
        ((compact item).toList ++ (commaEach (items.map compact) ++ ']' :: rest)) =
      some (.array (read.reverse ++ item :: items), rest) := by
  induction items generalizing item fuel read with
  | nil =>
      obtain _ | fuel := fuel
      · simp at hfuel
      have hitem := h item List.mem_cons_self fuel (']' :: rest) (ends_cons (by simp) rest)
        (by simp [commaEach] at hfuel; omega)
      simp [items?, commaEach, hitem, skipSpace, isSpace]
  | cons next items ih =>
      obtain _ | fuel := fuel
      · simp at hfuel
      rw [List.length_append] at hfuel
      have hitem := h item List.mem_cons_self fuel _
        (ends_commaEach (.inl rfl) ((next :: items).map compact) rest) (by omega)
      have hrest := ih (fun entry hentry => h entry (List.mem_cons_of_mem _ hentry)) fuel
        (item :: read) (by simp [commaEach] at hfuel ⊢; omega)
      rw [items?, hitem]
      simp only [commaEach, List.map_cons, List.flatMap_cons] at hrest ⊢
      simpa [skipSpace, isSpace] using hrest

theorem setMember_of_notMem {members : List (String × Json)} {name : String}
    (h : name ∉ members.map Prod.fst) (value : Json) :
    setMember members name value = members ++ [(name, value)] := by
  have hlookup : lookup name members = none := by
    induction members with
    | nil => rfl
    | cons entry members ih =>
        rw [List.map_cons, List.mem_cons, not_or] at h
        rw [lookup, if_neg (Ne.symm h.1), ih h.2]
  simp [setMember, hlookup]

/-- A member is read, and then others after a comma, or it was the last one. -/
theorem members?_compactMember {entry : String × Json} (h : ReadsBack levels entry.2)
    {fuel : Nat} {rest : List Char} (hrest : Ends rest)
    (hfuel : (compactMember entry).toList.length ≤ fuel) (read : List (String × Json)) :
    (∀ tail, skipSpace rest = ',' :: tail →
      members? levels (fuel + 1) read ((compactMember entry).toList ++ rest) =
        members? levels fuel (setMember read entry.1 entry.2) tail) ∧
    ∀ tail, skipSpace rest = '\x7d' :: tail →
      members? levels (fuel + 1) read ((compactMember entry).toList ++ rest) =
        some (.object (setMember read entry.1 entry.2), tail) := by
  have hlength : (compact entry.2).toList.length ≤ fuel := by
    rw [toList_compactMember] at hfuel
    simp only [List.length_cons, List.length_append] at hfuel
    omega
  have hvalue := h fuel rest hrest hlength
  have htext : (compactMember entry).toList ++ rest =
      '"' :: (entry.1.toList.flatMap escapeChar ++
        '"' :: ':' :: ((compact entry.2).toList ++ rest)) := by
    rw [toList_compactMember]
    simp
  have hcolon (tail : List Char) : skipSpace (':' :: tail) = ':' :: tail := rfl
  refine ⟨fun tail htail => ?_, fun tail htail => ?_⟩
  all_goals
    rw [htext, members?, skipSpace_of_start rfl]
    simp only [quoted?_quote, hcolon, hvalue, htail]

theorem setMember_of_nodup {read members : List (String × Json)} {entry : String × Json}
    (hnames : ((read ++ entry :: members).map Prod.fst).Nodup) :
    setMember read entry.1 entry.2 = read ++ [entry] := by
  refine setMember_of_notMem (fun hmem => ?_) entry.2
  rw [List.map_append, List.nodup_append] at hnames
  exact hnames.2.2 _ hmem _ (by simp) rfl

theorem members?_compact {entry : String × Json} {members : List (String × Json)}
    (h : ∀ other ∈ entry :: members, ReadsBack levels other.2) (fuel : Nat)
    (read : List (String × Json)) (rest : List Char)
    (hnames : ((read ++ entry :: members).map Prod.fst).Nodup)
    (hfuel : ((compactMember entry).toList ++
      commaEach (members.map compactMember)).length < fuel) :
    members? levels fuel read ((compactMember entry).toList ++
        (commaEach (members.map compactMember) ++ '\x7d' :: rest)) =
      some (.object (read ++ entry :: members), rest) := by
  induction members generalizing entry fuel read with
  | nil =>
      obtain _ | fuel := fuel
      · simp at hfuel
      rw [List.length_append] at hfuel
      obtain ⟨-, hlast⟩ := members?_compactMember (h entry List.mem_cons_self)
        (ends_commaEach (.inr rfl) [] rest) (show _ ≤ fuel by omega) read
      rw [List.map_nil, hlast rest rfl, setMember_of_nodup hnames]
  | cons next members ih =>
      obtain _ | fuel := fuel
      · simp at hfuel
      rw [List.length_append] at hfuel
      have hrest := ih (fun other hother => h other (List.mem_cons_of_mem _ hother)) fuel
        (read ++ [entry]) (by simpa using hnames) (by simp [commaEach] at hfuel ⊢; omega)
      obtain ⟨hmore, -⟩ := members?_compactMember (h entry List.mem_cons_self)
        (ends_commaEach (.inr rfl) ((next :: members).map compactMember) rest)
        (show _ ≤ fuel by omega) read
      have hcomma : skipSpace (commaEach ((next :: members).map compactMember) ++ '\x7d' :: rest) =
          ',' :: ((compactMember next).toList ++
            (commaEach (members.map compactMember) ++ '\x7d' :: rest)) := by
        simp [commaEach, skipSpace, isSpace]
      rw [hmore _ hcomma, setMember_of_nodup hnames, hrest, List.append_assoc,
        List.singleton_append]

/-- No text is empty, so there is always some fuel. -/
theorem readsBack_of_succ {json : Json} (htidy : json.Tidy levels)
    (h : ∀ fuel rest, Ends rest → (compact json).toList.length ≤ fuel + 1 →
      value? levels (fuel + 1) ((compact json).toList ++ rest) = some (json, rest)) :
    json.ReadsBack levels := by
  intro fuel rest hrest hfuel
  obtain ⟨c, tail, htext, -⟩ := compact_start htidy
  cases fuel with
  | zero => simp [htext] at hfuel
  | succ fuel => exact h fuel rest hrest hfuel

/-- Every tidy value is read back from its text. -/
theorem readsBack_of_tidy {json : Json} (h : json.Tidy levels) : json.ReadsBack levels := by
  -- The induction is on how the value is built, so items and members are read back already.
  induction h with
  | null => exact readsBack_of_succ .null fun fuel rest _ _ => rfl
  | bool value =>
      refine readsBack_of_succ (.bool value) fun fuel rest _ _ => ?_
      cases value <;> rfl
  | int hrange =>
      exact readsBack_of_succ (.int hrange) fun fuel rest hrest _ =>
        value?_number (number?_append hrest (number?_toString hrange)) _ fuel
  | decimal hread =>
      exact readsBack_of_succ (.decimal hread) fun fuel rest hrest _ =>
        value?_number (number?_append hrest hread) _ fuel
  | string value =>
      refine readsBack_of_succ (.string value) fun fuel rest _ _ => ?_
      have htext : (compact (.string value)).toList ++ rest =
          '"' :: (value.toList.flatMap escapeChar ++ '"' :: rest) := by
        change (quote value).toList ++ rest = _
        rw [toList_quote]
        simp
      rw [htext, value?, skipSpace_of_start rfl]
      simp only [quoted?_quote]
      rfl
  | @array levels items hitems ih =>
      refine readsBack_of_succ (.array hitems) fun fuel rest _ hfuel => ?_
      cases items with
      | nil => rfl
      | cons item items =>
          rw [toList_compact_array] at hfuel ⊢
          have hread := items?_compact ih fuel [] rest (by simp at hfuel ⊢; omega)
          obtain ⟨c, tail, htext, hspace, hclose⟩ := compact_start (hitems item List.mem_cons_self)
          have hopen (tail : List Char) : skipSpace ('[' :: tail) = '[' :: tail := rfl
          simp only [htext, List.cons_append, List.append_assoc, List.nil_append, List.reverse_nil]
            at hread ⊢
          simp [value?, hopen, skipSpace_of_start hspace, hclose, hread]
  | @object levels members hnames hmembers ih =>
      refine readsBack_of_succ (.object hnames hmembers) fun fuel rest _ hfuel => ?_
      cases members with
      | nil => rfl
      | cons entry members =>
          rw [toList_compact_object] at hfuel ⊢
          have hread := members?_compact ih fuel [] rest hnames (by simp at hfuel ⊢; omega)
          have hopen (tail : List Char) : skipSpace ('\x7b' :: tail) = '\x7b' :: tail := rfl
          simp only [toList_compactMember, List.cons_append, List.append_assoc, List.nil_append]
            at hread ⊢
          simp [value?, hopen, skipSpace_of_start (show isSpace '"' = false from rfl), hread]

theorem parse?_compact {json : Json} (h : json.Tidy maxLevels) :
    parse? (compact json) = some json := by
  have hread := readsBack_of_tidy h ((compact json).toList.length + 1) [] ends_nil (Nat.le_succ _)
  rw [List.append_nil] at hread
  simp [parse?, hread, skipSpace]

end ForkReplay.Json
