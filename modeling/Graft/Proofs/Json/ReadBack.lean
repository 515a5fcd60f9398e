import Graft.Json.Parse
import Mathlib.Data.List.Forall2
/-!
What is written as JSON reads as what it was.

# Which values come back

The compact text of a value (`Json.write`) is read by `Json.read?`, and the value that is read is
the one that was written, if the value is exact (`Json.isExact`): it can be held, it nests no deeper
than the reader goes, and its numbers are whole and of 64 bits. Those are all the limits there are.
A text may hold any character, and an object any keys in any order, repeated ones included. Numbers
with a fraction are left out because the reader takes them in rounded steps, so that the last bit of
one may differ.

# The induction

It is on the value, with the text that follows it left open (`Json.readsBack`). What follows a
value in a list or an object is a comma or a bracket; a number is the only value that could go on
with what follows it, and these marks rule that out (`Json.Ends`). The fuel of the reader is twice
the length of the text, two steps for every item and its comma, so it is not spent before the text
is.

- A quoted text is read character by character, each from what was written for it
  (`Json.quoted?_quoteChar`). A control character may come back as a number of four digits, but none
  of these is half of a character, so no two of them join (`Json.textOf?_of_spells`).
- A whole number is a row of digits that starts with no zero unless it is zero, and its digits spell
  it (`Json.number?_write`).
-/
namespace Graft

namespace Json

-- ================================================================== texts

/-- A piece that a character of a quoted text may be read as: the character itself or, for a control
character, its number. -/
def Spells (c : Char) (p : StringPiece) : Prop :=
  p = .point c.toNat ∨ (p = .unit c.toNat ∧ c.toNat < 0x20)

theorem hexValue?_digitChar : ∀ n < 16, hexValue? (Nat.digitChar n) = some n := by decide

/-- What was written for a character is read as that character. -/
theorem quoted?_quoteChar (c : Char) (rest : List Char) :
    ∃ p, Spells c p ∧ quoted? .plain (quoteChar c ++ rest)
      = (quoted? .plain rest).map fun r => (p :: r.1, r.2) := by
  fun_cases quoteChar c
  case case8 hlow _ _ _ _ _ _ _ =>
    -- a control character without a letter of its own is written by its number
    have hcontrol : c.toNat < 0x20 := hlow
    have hzero : hexValue? '0' = some 0 := rfl
    have hhigh := hexValue?_digitChar (c.toNat / 16) (by omega)
    have hlow := hexValue?_digitChar (c.toNat % 16) (by omega)
    have hvalue : c.toNat / 16 * 16 + c.toNat % 16 = c.toNat := Nat.div_add_mod' _ _
    refine ⟨.unit c.toNat, Or.inr ⟨rfl, hcontrol⟩, ?_⟩
    simp [if_pos hcontrol, quoted?, hzero, hhigh, hlow, hvalue]
  case case9 hhigh hquote hslash _ _ _ _ _ =>
    have hplain : ¬ c.toNat < 0x20 := hhigh
    refine ⟨.point c.toNat, Or.inl rfl, ?_⟩
    simp [if_neg hplain, quoted?, if_neg hquote, if_neg hslash]
  all_goals exact ⟨_, Or.inl rfl, rfl⟩

/-- The text between quotes is read up to its closing quote, one piece for every character. -/
theorem quoted?_flatMap (text rest : List Char) :
    ∃ pieces, List.Forall₂ Spells text pieces
      ∧ quoted? .plain (text.flatMap quoteChar ++ '"' :: rest) = some (pieces, rest) := by
  induction text with
  | nil => exact ⟨[], .nil, rfl⟩
  | cons c text ih =>
      obtain ⟨pieces, hpieces, htext⟩ := ih
      obtain ⟨p, hp, hc⟩ := quoted?_quoteChar c (text.flatMap quoteChar ++ '"' :: rest)
      refine ⟨p :: pieces, .cons hp hpieces, ?_⟩
      rw [List.flatMap_cons, List.append_assoc, hc, htext]
      rfl

/-- No character is half of one. -/
theorem isSurrogate_toNat (c : Char) : isSurrogate c.toNat = false := by
  have hvalid : c.toNat < 0xD800 ∨ (0xDFFF < c.toNat ∧ c.toNat < 0x110000) := c.valid
  rw [isSurrogate, Bool.and_eq_false_iff, decide_eq_false_iff_not, decide_eq_false_iff_not]
  omega

/-- The code point of a character is that character. -/
theorem ofCodePoint_toNat (c : Char) : StringUnit.ofPieces.ofCodePoint c.toNat = .scalar c := by
  rw [StringUnit.ofPieces.ofCodePoint, isSurrogate_toNat, Char.ofNat_toNat]
  rfl

/-- A piece that spells a character joins with none that follows it. -/
theorem ofPieces_cons {c : Char} {p : StringPiece} (h : Spells c p) (rest : List StringPiece) :
    StringUnit.ofPieces (p :: rest) = .scalar c :: StringUnit.ofPieces rest := by
  rcases h with rfl | ⟨rfl, hcontrol⟩
  · rw [StringUnit.ofPieces, ofCodePoint_toNat]
  · have hhigh : isHighSurrogate c.toNat = false := by
      rw [isHighSurrogate, Bool.and_eq_false_iff, decide_eq_false_iff_not]
      omega
    rcases rest with _ | ⟨_ | _, rest⟩ <;> simp [StringUnit.ofPieces, ofCodePoint_toNat, hhigh]

/-- Pieces that spell characters are these characters, one by one. -/
theorem ofPieces_of_spells {text : List Char} {pieces : List StringPiece}
    (h : List.Forall₂ Spells text pieces) : StringUnit.ofPieces pieces = text.map .scalar := by
  induction h with
  | nil => rfl
  | cons hp _ ih => rw [ofPieces_cons hp, ih, List.map_cons]

/-- Pieces that spell the characters of a text make up the text. -/
theorem textOf?_of_spells {text : List Char} {pieces : List StringPiece}
    (h : List.Forall₂ Spells text pieces) : textOf? pieces = some (String.ofList text) := by
  have hchars : ∀ f : StringUnit → Option Char, (∀ c, f (.scalar c) = some c) →
      (text.map StringUnit.scalar).mapM f = some text := by
    intro f hf
    clear h
    induction text with
    | nil => rfl
    | cons c text ih =>
        rw [List.map_cons, List.mapM_cons, ih, hf]
        rfl
  rw [textOf?, ofPieces_of_spells h]
  exact congrArg (Option.map String.ofList) (hchars _ fun _ => rfl)

-- ================================================================ numbers

/-- What may follow a value: nothing, or a mark that no number goes on with. -/
def Ends (rest : List Char) : Prop :=
  ∀ c ∈ rest.head?, c = ',' ∨ c = ']' ∨ c = '\x7d'

/-- A number is written from a digit on. -/
theorem decimalText_head (n : Nat) : ∃ c cs, decimalText n = c :: cs ∧ c.isDigit = true := by
  obtain ⟨c, cs, htext⟩ := List.exists_cons_of_ne_nil (l := decimalText n) Nat.toDigits_ne_nil
  exact ⟨c, cs, htext,
    Nat.isDigit_of_mem_toDigits (by decide) (by decide) (htext ▸ List.mem_cons_self)⟩

/-- The decimal digits of a number, as numbers. -/
def digitsOf (n : Nat) : List Nat := (decimalText n).map fun c => c.toNat - 0x30

theorem digitsOf_of_lt {n : Nat} (h : n < 10) : digitsOf n = [n] := by
  rw [digitsOf, decimalText, Nat.toDigits_of_lt_base h, List.map_singleton,
    Nat.toNat_digitChar_of_lt_ten h, Nat.add_sub_cancel_left]

/-- The last digit of a number is what division by ten leaves. -/
theorem digitsOf_of_le {n : Nat} (h : 10 ≤ n) :
    digitsOf n = digitsOf (n / 10) ++ [n % 10] := by
  have hlast : n % 10 < 10 := Nat.mod_lt _ (by decide)
  rw [digitsOf, decimalText, Nat.toDigits_of_base_le (by decide) h, List.map_append,
    List.map_singleton, Nat.toNat_digitChar_of_lt_ten hlast, Nat.add_sub_cancel_left]
  rfl

/-- The digits of a number spell it. -/
theorem foldl_digitsOf (n : Nat) : (digitsOf n).foldl (fun n d => n * 10 + d) 0 = n := by
  induction n using Nat.strongRecOn with
  | ind n ih =>
      rcases Nat.lt_or_ge n 10 with hlt | hle
      · rw [digitsOf_of_lt hlt, List.foldl_cons, List.foldl_nil, Nat.zero_mul, Nat.zero_add]
      · rw [digitsOf_of_le hle, List.foldl_append, ih (n / 10) (by omega), List.foldl_cons,
          List.foldl_nil]
        exact Nat.div_add_mod' n 10

theorem digitsOf_ne_nil (n : Nat) : digitsOf n ≠ [] := by
  rw [digitsOf, ne_eq, List.map_eq_nil_iff]
  exact Nat.toDigits_ne_nil

/-- No number but zero starts with a zero. -/
theorem head?_digitsOf {n : Nat} (h : 0 < n) : (digitsOf n).head? ≠ some 0 := by
  induction n using Nat.strongRecOn with
  | ind n ih =>
      rcases Nat.lt_or_ge n 10 with hlt | hle
      · rw [digitsOf_of_lt hlt]
        simp
        omega
      · have hfront := ih (n / 10) (by omega) (by omega)
        rw [digitsOf_of_le hle, List.head?_append_of_ne_nil _ (digitsOf_ne_nil _)]
        exact hfront

/-- A decimal digit has the value that its place among the digits gives it. -/
theorem digitValue?_of_isDigit {c : Char} (h : c.isDigit = true) :
    digitValue? c = some (c.toNat - 0x30) := by
  have hrange : 0x30 ≤ c.toNat ∧ c.toNat ≤ 0x39 := Char.isDigit_iff_toNat.mp h
  simp [digitValue?, hrange]

/-- The digits of a number are all read where something else follows them. -/
theorem digits_decimalText (n : Nat) {rest : List Char}
    (hrest : ∀ c ∈ rest.head?, digitValue? c = none) :
    digits (decimalText n ++ rest) = (digitsOf n, rest) := by
  have hdigit : ∀ c ∈ decimalText n, digitValue? c = some (c.toNat - 0x30) := fun c hc =>
    digitValue?_of_isDigit (Nat.isDigit_of_mem_toDigits (by decide) (by decide) hc)
  have hsome : ∀ c ∈ decimalText n, (digitValue? c).isSome = true := fun c hc => by
    rw [hdigit c hc]
    rfl
  have htake : rest.takeWhile (fun c => (digitValue? c).isSome) = [] := by
    cases rest with
    | nil => rfl
    | cons c rest => simp [hrest c rfl]
  have hdrop : rest.dropWhile (fun c => (digitValue? c).isSome) = rest := by
    cases rest with
    | nil => rfl
    | cons c rest => simp [hrest c rfl]
  rw [digits, List.takeWhile_append_of_pos hsome, List.dropWhile_append_of_pos hsome, htake,
    hdrop, List.append_nil, List.filterMap_congr hdigit]
  exact congrArg (·, rest) (congrFun List.filterMap_eq_map _)

/-- Further digits make no number less. -/
theorem le_foldl_digits (ds : List Nat) (n : Nat) :
    n ≤ ds.foldl (fun n d => n * 10 + d) n := by
  induction ds generalizing n with
  | nil => exact Nat.le_refl n
  | cons d ds ih => exact Nat.le_trans (by omega) (ih (n * 10 + d))

/-- Digits are taken into a number as long as the number that they spell can be held. -/
theorem takeDigits_of_le {ds : List Nat} {n : Nat}
    (h : ds.foldl (fun n d => n * 10 + d) n ≤ JsonNumber.maxWhole) :
    JsonNumber.takeDigits n ds = (ds.foldl (fun n d => n * 10 + d) n, []) := by
  induction ds generalizing n with
  | nil => rfl
  | cons d ds ih =>
      rw [List.foldl_cons] at h
      have hfits : n * 10 + d ≤ JsonNumber.maxWhole := Nat.le_trans (le_foldl_digits ds _) h
      rw [JsonNumber.takeDigits, if_neg (Nat.not_lt.mpr hfits), ih h, List.foldl_cons]

end Json

/-- Whether a number is whole and of 64 bits, so that it is read as it was written. -/
def JsonNumber.isExact : JsonNumber → Bool
  | .whole n => -(twoTo 63 : Int) ≤ n && n ≤ maxWhole
  | .float .. => false

namespace Json

theorem Ends.digitValue?_eq_none {rest : List Char} (h : Ends rest) :
    ∀ c ∈ rest.head?, digitValue? c = none := by
  intro c hc
  rcases h c hc with rfl | rfl | rfl <;> rfl

/-- What ends a value is no exponent. -/
theorem Ends.exponent? {rest : List Char} (h : Ends rest) :
    Json.exponent? rest = some (none, rest) := by
  cases rest with
  | nil => rfl
  | cons c rest => rcases h c rfl with rfl | rfl | rfl <;> rfl

/-- No number is refused for a zero that it starts with. -/
theorem digitsOf_accepted (n : Nat) :
    ((digitsOf n).isEmpty || ((digitsOf n).head? == some 0 && (digitsOf n).length != 1)) = false := by
  have hne : (digitsOf n).isEmpty = false := by
    rw [List.isEmpty_eq_false_iff]
    exact digitsOf_ne_nil n
  rw [hne, Bool.false_or, Bool.and_eq_false_iff]
  rcases Nat.eq_zero_or_pos n with rfl | hpos
  · exact Or.inr rfl
  · exact Or.inl (by simpa using head?_digitsOf hpos)

/-- The digits of a number, with or without a minus in front, are read up to what ends a value. -/
theorem number?_decimalText (n : Nat) {rest : List Char} (hrest : Ends rest) :
    number? (decimalText n ++ rest)
        = some (JsonNumber.ofParts? false (digitsOf n) none none, rest)
      ∧ number? ('-' :: decimalText n ++ rest)
        = some (JsonNumber.ofParts? true (digitsOf n) none none, rest) := by
  have hdigits := digits_decimalText n hrest.digitValue?_eq_none
  have haccepted := digitsOf_accepted n
  -- what ends a value is no point, so no fraction follows
  have hpoint : ∀ cs, rest ≠ '.' :: cs := by
    rintro cs rfl
    exact absurd (hrest '.' rfl) (by decide)
  constructor
  · obtain ⟨c, cs, htext, hdigit⟩ := decimalText_head n
    have hminus : c ≠ '-' := by
      rintro rfl
      exact absurd hdigit (by decide)
    rw [htext, List.cons_append] at hdigits ⊢
    simp [number?, hminus, hdigits, haccepted, hrest.exponent?]
  · simp [number?, hdigits, haccepted, hrest.exponent?]

/-- Where 64 bits can hold a number, all its digits are taken into it. -/
theorem takeDigits_digitsOf {n : Nat} (h : n ≤ JsonNumber.maxWhole) :
    JsonNumber.takeDigits 0 (digitsOf n) = (n, []) := by
  have hfits : (digitsOf n).foldl (fun n d => n * 10 + d) 0 ≤ JsonNumber.maxWhole := by
    rwa [foldl_digitsOf]
  rw [takeDigits_of_le hfits, foldl_digitsOf]

/-- The number that the digits of a number spell, if 64 bits can hold it. -/
theorem ofParts?_digitsOf {n : Nat} (h : n ≤ JsonNumber.maxWhole) :
    JsonNumber.ofParts? false (digitsOf n) none none = some (.whole n) := by
  simp [JsonNumber.ofParts?, takeDigits_digitsOf h]

/-- The same with a minus in front; there is no negative zero among the whole numbers. -/
theorem ofParts?_neg_digitsOf {n : Nat} (hpos : 0 < n) (h : n ≤ twoTo 63) :
    JsonNumber.ofParts? true (digitsOf n) none none = some (.whole (-n)) := by
  have htake := takeDigits_digitsOf (Nat.le_trans h (by decide))
  have hzero : n ≠ 0 := Nat.pos_iff_ne_zero.mp hpos
  have hleast : ¬ twoTo 63 < n := Nat.not_lt.mpr h
  simp [JsonNumber.ofParts?, htake, hzero, hleast]

/-- The text of a whole number is read as that number. -/
theorem number?_write {n : JsonNumber} (h : n.isExact = true) {rest : List Char}
    (hrest : Ends rest) : number? (n.write ++ rest) = some (some n, rest) := by
  rcases n with (n | n) | _
  · have hmost : n ≤ JsonNumber.maxWhole := by
      rw [JsonNumber.isExact, Bool.and_eq_true, decide_eq_true_eq, decide_eq_true_eq] at h
      exact Int.ofNat_le.mp h.2
    rw [JsonNumber.write, (number?_decimalText n hrest).1, ofParts?_digitsOf hmost]
    rfl
  · have hleast : n + 1 ≤ twoTo 63 := by
      rw [JsonNumber.isExact, Bool.and_eq_true, decide_eq_true_eq, decide_eq_true_eq,
        Int.negSucc_eq, Int.neg_le_neg_iff] at h
      exact Int.ofNat_le.mp h.1
    rw [JsonNumber.write, (number?_decimalText (n + 1) hrest).2,
      ofParts?_neg_digitsOf (Nat.succ_pos n) hleast]
    rfl
  · exact absurd h (by simp [JsonNumber.isExact])

-- ================================================================= values

/-- A fact about a value may use the same fact about every value in it. -/
theorem induct {motive : Json → Prop} (unheld : motive .unheld) (null : motive .null)
    (boolean : ∀ b, motive (.boolean b)) (number : ∀ n, motive (.number n))
    (string : ∀ s, motive (.string s))
    (array : ∀ items, (∀ v ∈ items, motive v) → motive (.array items))
    (object : ∀ entries, (∀ e ∈ entries, motive e.2) → motive (.object entries))
    (v : Json) : motive v :=
  @Json.rec motive (fun items => ∀ v ∈ items, motive v) (fun entries => ∀ e ∈ entries, motive e.2)
    (fun e => motive e.2) unheld null boolean number string array object
    (fun _ h => absurd h List.not_mem_nil)
    (fun _ _ hv hvs => List.forall_mem_cons.mpr ⟨hv, hvs⟩)
    (fun _ h => absurd h List.not_mem_nil)
    (fun _ _ he hes => List.forall_mem_cons.mpr ⟨he, hes⟩)
    (fun _ _ h => h) v

mutual

/-- Whether a value comes back from its text where values may nest `depth` deep: nothing in it was
given up, it nests less deep, and its numbers are whole. -/
def isExact : (depth : Nat) → Json → Bool
  | _, .unheld => false
  | _, .number n => n.isExact
  | depth, .array items => 1 < depth && itemsExact (depth - 1) items
  | depth, .object entries => 1 < depth && entriesExact (depth - 1) entries
  | _, _ => true

/-- `isExact` of all items. -/
def itemsExact : (depth : Nat) → List Json → Bool
  | _, [] => true
  | depth, v :: vs => v.isExact depth && itemsExact depth vs

/-- `isExact` of the values of all entries. -/
def entriesExact : (depth : Nat) → List (String × Json) → Bool
  | _, [] => true
  | depth, (_, v) :: rest => v.isExact depth && entriesExact depth rest

end

/-- The text of a whole number starts with a minus or with a digit. -/
theorem number_head {n : JsonNumber} (h : n.isExact = true) :
    ∃ c cs, n.write = c :: cs ∧ (c = '-' ∨ c.isDigit = true) := by
  rcases n with (n | n) | _
  · obtain ⟨c, cs, htext, hdigit⟩ := decimalText_head n
    exact ⟨c, cs, htext, Or.inr hdigit⟩
  · exact ⟨'-', _, rfl, Or.inl rfl⟩
  · exact absurd h (by simp [JsonNumber.isExact])

/-- A number starts with nothing that starts anything else. -/
theorem ne_of_starts_number {c d : Char} (hc : c = '-' ∨ c.isDigit = true) (hminus : d ≠ '-')
    (hdigit : d.isDigit = false) : c ≠ d := by
  rintro rfl
  rcases hc with rfl | hc
  · exact hminus rfl
  · exact absurd hc (by simp [hdigit])

/-- What starts a number is no space. -/
theorem isSpace_of_starts_number {c : Char} (hc : c = '-' ∨ c.isDigit = true) :
    isSpace c = false := by
  have hblank : c ≠ ' ' := ne_of_starts_number hc (by decide) (by decide)
  have htab : c ≠ '\t' := ne_of_starts_number hc (by decide) (by decide)
  have hfeed : c ≠ '\n' := ne_of_starts_number hc (by decide) (by decide)
  have hreturn : c ≠ '\r' := ne_of_starts_number hc (by decide) (by decide)
  simp [isSpace, hblank, htab, hfeed, hreturn]

/-- A text that starts as a number is read as one. -/
theorem value?_of_starts_number {c : Char} (hc : c = '-' ∨ c.isDigit = true) (depth fuel : Nat)
    (cs : List Char) : value? depth (fuel + 1) (c :: cs)
      = (number? (c :: cs)).map fun r => (orUnheld (r.1.map .number), r.2) := by
  unfold value?
  rw [List.dropWhile_cons_of_neg (by simpa using isSpace_of_starts_number hc)]
  split
  case h_7 => rfl
  all_goals
    rename_i heq
    exact absurd (List.cons.inj heq).1 (ne_of_starts_number hc (by decide) (by decide))

/-- The text of an exact value starts with no space, and with nothing that closes a list. -/
theorem write_head {v : Json} {depth : Nat} (h : v.isExact depth = true) :
    ∃ c cs, v.write = c :: cs ∧ isSpace c = false ∧ c ≠ ']' := by
  cases v with
  | number n =>
      obtain ⟨c, cs, htext, hc⟩ := number_head (n := n) (by simpa [isExact] using h)
      exact ⟨c, cs, htext, isSpace_of_starts_number hc,
        ne_of_starts_number hc (by decide) (by decide)⟩
  | boolean b => cases b <;> exact ⟨_, _, rfl, by decide, by decide⟩
  | _ => exact ⟨_, _, rfl, by decide, by decide⟩

/-- The text of a value is read as the value, whatever ends it. -/
def ReadsBack (v : Json) : Prop :=
  ∀ depth fuel rest, v.isExact depth = true → 2 * v.write.length ≤ fuel + 1 → Ends rest →
    value? depth (fuel + 1) (v.write ++ rest) = some (v, rest)

theorem writeItems_cons_cons (v w : Json) (vs : List Json) :
    writeItems (v :: w :: vs) = v.write ++ ',' :: writeItems (w :: vs) := by
  rw [writeItems]
  simp

/-- The items of a list are read one by one, up to the bracket behind the last one. -/
theorem items?_writeItems {v : Json} {vs : List Json} (hread : ∀ w ∈ v :: vs, ReadsBack w)
    {depth fuel : Nat} (rest : List Char) (h : itemsExact depth (v :: vs) = true)
    (hfuel : 2 * (writeItems (v :: vs)).length ≤ fuel + 1) :
    items? depth (fuel + 2) (writeItems (v :: vs) ++ ']' :: rest) = some (v :: vs, rest) := by
  induction vs generalizing v fuel with
  | nil =>
      have hitem : v.isExact depth = true := by simpa [itemsExact] using h
      have hsingle : writeItems [v] = v.write := by simp [writeItems]
      rw [hsingle] at hfuel ⊢
      have hv := hread v List.mem_cons_self depth fuel (']' :: rest) hitem hfuel (by simp [Ends])
      rw [items?, hv]
      rfl
  | cons w vs ih =>
      rw [itemsExact, Bool.and_eq_true] at h
      rw [writeItems_cons_cons, List.length_append, List.length_cons] at hfuel
      obtain ⟨fuel, rfl⟩ : ∃ k, fuel = k + 1 := ⟨fuel - 1, by omega⟩
      have hv := hread v List.mem_cons_self depth (fuel + 1)
        (',' :: (writeItems (w :: vs) ++ ']' :: rest)) h.1 (by omega) (by simp [Ends])
      have hvs := @ih w (fun u hu => hread u (List.mem_cons_of_mem _ hu)) fuel h.2 (by omega)
      rw [writeItems_cons_cons, List.append_assoc, List.cons_append, items?, hv]
      simp [isSpace, hvs]

/-- A text between quotes is read as the text. -/
theorem quoted?_quote (s : String) (rest : List Char) :
    ∃ cs pieces, quote s ++ rest = '"' :: cs ∧ quoted? .plain cs = some (pieces, rest)
      ∧ textOf? pieces = some s := by
  obtain ⟨pieces, hpieces, hread⟩ := quoted?_flatMap s.toList rest
  refine ⟨_, pieces, ?_, hread, ?_⟩
  · simp [quote]
  · rw [textOf?_of_spells hpieces, String.ofList_toList]

theorem writeEntries_singleton (e : String × Json) :
    writeEntries [e] = quote e.1 ++ ':' :: e.2.write := by
  rw [writeEntries, writeEntries]
  simp

theorem writeEntries_cons_cons (e f : String × Json) (es : List (String × Json)) :
    writeEntries (e :: f :: es)
      = quote e.1 ++ ':' :: (e.2.write ++ ',' :: writeEntries (f :: es)) := by
  rw [writeEntries]
  simp

/-- An entry is read as its key and its value, whether it is the last one or not. -/
theorem entries?_entry {e : String × Json} (hread : ReadsBack e.2) {depth fuel : Nat}
    (rest : List Char) (h : e.2.isExact depth = true) (hfuel : 2 * e.2.write.length ≤ fuel + 1) :
    entries? depth (fuel + 2) (quote e.1 ++ ':' :: (e.2.write ++ '\x7d' :: rest))
        = some (some [e], rest)
      ∧ entries? depth (fuel + 2) (quote e.1 ++ ':' :: (e.2.write ++ ',' :: rest))
        = (entries? depth (fuel + 1) rest).map fun r => (addEntry (some e.1) e.2 r.1, r.2) := by
  constructor
  · obtain ⟨cs, pieces, hkey, hquoted, htext⟩ :=
      quoted?_quote e.1 (':' :: (e.2.write ++ '\x7d' :: rest))
    have hv := hread depth fuel ('\x7d' :: rest) h hfuel (by simp [Ends])
    rw [hkey]
    simp [entries?, isSpace, hquoted, hv, htext, addEntry]
  · obtain ⟨cs, pieces, hkey, hquoted, htext⟩ :=
      quoted?_quote e.1 (':' :: (e.2.write ++ ',' :: rest))
    have hv := hread depth fuel (',' :: rest) h hfuel (by simp [Ends])
    rw [hkey, entries?]
    simp [isSpace, hquoted, hv, htext]

/-- The entries of an object are read one by one, up to the brace behind the last one. -/
theorem entries?_writeEntries {e : String × Json} {es : List (String × Json)}
    (hread : ∀ f ∈ e :: es, ReadsBack f.2) {depth fuel : Nat} (rest : List Char)
    (h : entriesExact depth (e :: es) = true)
    (hfuel : 2 * (writeEntries (e :: es)).length ≤ fuel + 1) :
    entries? depth (fuel + 2) (writeEntries (e :: es) ++ '\x7d' :: rest)
      = some (some (e :: es), rest) := by
  induction es generalizing e fuel with
  | nil =>
      have hvalue : e.2.isExact depth = true := by simpa [entriesExact] using h
      rw [writeEntries_singleton, List.length_append, List.length_cons] at hfuel
      rw [writeEntries_singleton, List.append_assoc, List.cons_append]
      exact (entries?_entry (hread e List.mem_cons_self) rest hvalue (by omega)).1
  | cons f es ih =>
      rw [entriesExact, Bool.and_eq_true] at h
      simp only [writeEntries_cons_cons, List.length_append, List.length_cons] at hfuel
      obtain ⟨fuel, rfl⟩ : ∃ k, fuel = k + 1 := ⟨fuel - 1, by omega⟩
      have hmore := @ih f (fun g hg => hread g (List.mem_cons_of_mem _ hg)) fuel h.2 (by omega)
      rw [writeEntries_cons_cons]
      simp only [List.append_assoc, List.cons_append]
      rw [(entries?_entry (hread e List.mem_cons_self) _ h.1 (by omega)).2, hmore]
      rfl

/-- Every exact value is read back from its text, wherever the text stands. -/
theorem readsBack (v : Json) : ReadsBack v := by
  induction v using induct with
  | unheld =>
      intro _ _ _ h
      exact absurd h (by simp [isExact])
  | null => exact fun _ _ _ _ _ _ => rfl
  | boolean b => cases b <;> exact fun _ _ _ _ _ _ => rfl
  | number n =>
      intro depth fuel rest h _ hrest
      have hexact : n.isExact = true := by simpa [isExact] using h
      obtain ⟨c, cs, htext, hc⟩ := number_head hexact
      have hread := number?_write hexact hrest
      rw [htext, List.cons_append] at hread
      rw [write, htext, List.cons_append, value?_of_starts_number hc, hread]
      rfl
  | string s =>
      intro depth fuel rest _ _ _
      obtain ⟨cs, pieces, hquote, hquoted, htext⟩ := quoted?_quote s rest
      rw [write, hquote]
      simp [value?, isSpace, hquoted, htext, orUnheld]
  | array items ih =>
      intro depth fuel rest h hfuel _
      rw [isExact, Bool.and_eq_true, decide_eq_true_eq] at h
      have hnested : ¬ depth ≤ 1 := Nat.not_le.mpr h.1
      cases items with
      | nil => simp [write, writeItems, value?, isSpace, nested, hnested]
      | cons v vs =>
          simp only [write, List.length_cons, List.length_append, List.length_nil] at hfuel
          obtain ⟨fuel, rfl⟩ : ∃ k, fuel = k + 2 := ⟨fuel - 2, by omega⟩
          have hitems := @items?_writeItems v vs ih (depth - 1) fuel rest h.2 (by omega)
          -- the first item does not start with the bracket that closes a list
          have hitem : v.isExact (depth - 1) = true := (Bool.and_eq_true_iff.mp h.2).1
          obtain ⟨c, cs, htext, hspace, hclose⟩ := write_head hitem
          have hstart : ∃ cs, writeItems (v :: vs) = c :: cs := by
            rw [writeItems, htext]
            exact ⟨_, rfl⟩
          obtain ⟨cs, hcs⟩ := hstart
          have hbracket : isSpace '[' = false := rfl
          rw [hcs, List.cons_append] at hitems
          rw [write, hcs]
          simp [value?, hbracket, hspace, hclose, nested, hnested, hitems]
  | object entries ih =>
      intro depth fuel rest h hfuel _
      rw [isExact, Bool.and_eq_true, decide_eq_true_eq] at h
      have hnested : ¬ depth ≤ 1 := Nat.not_le.mpr h.1
      cases entries with
      | nil => simp [write, writeEntries, value?, isSpace, nested, hnested]
      | cons e es =>
          simp only [write, List.length_cons, List.length_append, List.length_nil] at hfuel
          obtain ⟨fuel, rfl⟩ : ∃ k, fuel = k + 2 := ⟨fuel - 2, by omega⟩
          have hentries := @entries?_writeEntries e es ih (depth - 1) fuel rest h.2 (by omega)
          have hstart : ∃ cs, writeEntries (e :: es) = '"' :: cs := by
            rw [writeEntries]
            exact ⟨_, rfl⟩
          obtain ⟨cs, hcs⟩ := hstart
          rw [hcs, List.cons_append] at hentries
          rw [write, hcs]
          simp [value?, isSpace, nested, hnested, hentries, orUnheld]

/-- An exact value is what its compact text reads as. -/
theorem read?_render {v : Json} (h : v.isExact 128 = true) : read? v.render = some v := by
  have hread := readsBack v 128 (2 * v.write.length + 1) [] h (by omega) (by simp [Ends])
  rw [List.append_nil] at hread
  rw [read?, render, String.toList_ofList]
  simp [hread]

end Json

end Graft
