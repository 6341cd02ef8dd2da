import RecordFilter.Proofs.Json.Strings
import RecordFilter.Proofs.Number.Literals

/-!
JSON documents are read back from their text. What stands behind a number must not carry it on, and
neither a comma nor a closing bracket does. How deep a document nests does not matter for its text,
but it does for the values that are read from it.
-/

namespace RecordFilter

open Number
open Number.Literal (startsOutside_pointText)
open Text (StartsOutside)

variable {s rest digits : List Char} {fuel : Nat} {n : Numeral}

/-- The numerals that JSON has: digits, without a zero in front of others. -/
structure Number.Numeral.Standard (n : Numeral) : Prop where
  whole_ne_nil : n.whole ≠ []
  isDigit_of_mem_whole : ∀ c ∈ n.whole, c.isDigit = true
  whole_eq_of_head : n.whole.head? = some '0' → n.whole = ['0']
  isDigit_of_mem_fraction : ∀ c ∈ n.fraction, c.isDigit = true

namespace Json

/-- The characters that a number may go on with. -/
def isNumberChar (c : Char) : Bool :=
  c.isDigit || c == '.' || c == 'e' || c == 'E'

theorem startsOutside_exponentText {p : Char → Bool} (hp : p 'e' = false) (exponent : Option Int) :
    StartsOutside p (Numeral.exponentText exponent) := by
  cases exponent with
  | none => exact Text.startsOutside_nil
  | some e => exact Text.startsOutside_cons hp

theorem readWhole_append (hne : digits ≠ []) (hdigits : ∀ c ∈ digits, c.isDigit = true)
    (hzero : digits.head? = some '0' → digits = ['0']) (hrest : StartsOutside Char.isDigit rest) :
    readWhole (digits ++ rest) = some (digits, rest) := by
  rw [readWhole, Text.span_append hdigits hrest]
  split
  · next heq => exact absurd (Prod.mk.inj heq).1 hne
  · next heq =>
      rw [(Prod.mk.inj heq).1] at hzero
      cases hzero rfl
  · next heq => rw [← heq]

theorem readFraction_append (hdigits : ∀ c ∈ digits, c.isDigit = true)
    (hdigit : StartsOutside Char.isDigit rest) (hpoint : StartsOutside (· == '.') rest) :
    readFraction (Numeral.pointText digits ++ rest) = some (digits, rest) := by
  cases digits with
  | nil =>
      rw [Numeral.pointText, List.nil_append, readFraction]
      rintro s rfl
      cases hpoint '.' rfl
  | cons c digits =>
      rw [Numeral.pointText, List.cons_append, readFraction, Text.span_append hdigits hdigit]
      rintro ⟨⟩

theorem splitSign_exponent (e : Int) (s : List Char) :
    splitSign ((if e < 0 then '-' else '+') :: s) = (decide (e < 0), s) := by
  by_cases he : e < 0 <;> simp [he, splitSign]

theorem readExponent_append (exponent : Option Int) (hrest : StartsOutside isNumberChar rest) :
    readExponent (Numeral.exponentText exponent ++ rest) = some (exponent, rest) := by
  cases exponent with
  | none =>
      cases rest with
      | nil => rfl
      | cons c rest =>
          have hc := hrest c rfl
          simp only [isNumberChar, Bool.or_eq_false_iff, beq_eq_false_iff_ne] at hc
          rw [Numeral.exponentText, List.nil_append, readExponent, if_neg (not_or.mpr ⟨hc.1.2, hc.2⟩)]
  | some e =>
      have hdigits : ∀ c ∈ Nat.toDigits 10 e.natAbs, c.isDigit = true :=
        fun _ => isDigit_of_mem_toDigits
      have hspan := Text.span_append hdigits (hrest.mono fun c hc => by simp [isNumberChar, hc])
      rw [Numeral.exponentText, List.cons_append, List.cons_append, readExponent, if_pos (.inl rfl),
        splitSign_exponent]
      simp only [hspan]
      split
      · next heq => exact absurd (Prod.mk.inj heq).1 Nat.toDigits_ne_nil
      · next heq =>
          obtain ⟨rfl, rfl⟩ := Prod.mk.inj heq
          rw [readDigits_toDigits, signed_natAbs]

theorem splitMinus_text (hn : n.Standard) (rest : List Char) :
    splitMinus (n.text ++ rest) =
      (n.negative, n.whole ++ (Numeral.pointText n.fraction ++
        (Numeral.exponentText n.exponent ++ rest))) := by
  obtain ⟨c, digits, hwhole⟩ := List.exists_cons_of_ne_nil hn.whole_ne_nil
  have hc : c.isDigit = true := hn.isDigit_of_mem_whole c (hwhole ▸ List.mem_cons_self)
  rw [Numeral.text, hwhole]
  cases n.negative with
  | false =>
      simp only [Bool.false_eq_true, if_false, List.nil_append, List.append_assoc, List.cons_append]
      rw [splitMinus]
      rintro s ⟨⟩
      cases hc
  | true => simp [splitMinus]

theorem readNumber_text (hn : n.Standard) (hrest : StartsOutside isNumberChar rest) :
    readNumber (n.text ++ rest) = some (.number n, rest) := by
  have hdigit := (startsOutside_exponentText (by decide) n.exponent).append
    (hrest.mono fun c (hc : c.isDigit = true) => by simp [isNumberChar, hc])
  have hpoint := (startsOutside_exponentText (by decide) n.exponent).append
    (hrest.mono fun c (hc : (c == '.') = true) => by simp [isNumberChar, hc])
  have hwhole := readWhole_append hn.whole_ne_nil hn.isDigit_of_mem_whole hn.whole_eq_of_head
    ((startsOutside_pointText n.fraction).append hdigit)
  have hfraction := readFraction_append hn.isDigit_of_mem_fraction hdigit hpoint
  simp [readNumber, splitMinus_text hn, hwhole, hfraction, readExponent_append n.exponent hrest]

/-- The documents whose text is JSON that stands for them. -/
inductive Legible : Json → Prop where
  | null : Legible null
  | bool (b : Bool) : Legible (bool b)
  | number {n : Numeral} (hn : n.Standard) : Legible (number n)
  | string (s : String) : Legible (string s)
  | array {items : List Json} (hitems : ∀ j ∈ items, Legible j) : Legible (array items)
  | object {members : List (String × Json)} (hmembers : ∀ m ∈ members, Legible m.2) :
      Legible (object members)

theorem Legible.tagged {payload : Json} (h : payload.Legible) (name : String) :
    (tagged name payload).Legible := by
  refine .object ?_
  intro m hm
  rw [List.mem_singleton.mp hm]
  exact h

/-- The document is read off the front of any text that starts with it. -/
def Reads (j : Json) : Prop :=
  ∀ fuel rest, j.chars.length ≤ fuel → StartsOutside isNumberChar rest →
    readValue fuel (j.chars ++ rest) = some (j, rest)

/-- A number starts with a minus sign or a digit, and nothing else in JSON does. -/
def startsNumber (c : Char) : Bool :=
  c == '-' || c.isDigit

theorem exists_text_eq (hn : n.Standard) :
    ∃ c s, n.text = c :: s ∧ startsNumber c = true := by
  obtain ⟨c, digits, hwhole⟩ := List.exists_cons_of_ne_nil hn.whole_ne_nil
  have hc : c.isDigit = true := hn.isDigit_of_mem_whole c (hwhole ▸ List.mem_cons_self)
  rw [Numeral.text, hwhole]
  cases n.negative with
  | false => exact ⟨c, _, rfl, by simp [startsNumber, hc]⟩
  | true => exact ⟨'-', _, rfl, rfl⟩

theorem skipSpace_cons {c : Char} (hc : isSpace c = false) (s : List Char) :
    skipSpace (c :: s) = c :: s := by
  rw [skipSpace, List.dropWhile_cons, hc, if_neg (by decide)]

theorem isSpace_of_startsNumber {c : Char} (hc : startsNumber c = true) : isSpace c = false := by
  rw [← Bool.not_eq_true]
  intro hspace
  simp only [isSpace, Bool.or_eq_true, beq_iff_eq] at hspace
  rcases hspace with ((rfl | rfl) | rfl) | rfl <;> cases hc

theorem readValue_number {c : Char} (hc : startsNumber c = true) (fuel : Nat) (s : List Char) :
    readValue (fuel + 1) (c :: s) = readNumber (c :: s) := by
  rw [readValue, skipSpace_cons (isSpace_of_startsNumber hc)]
  split <;> first | rfl | next heq => cases heq; cases hc

theorem readValue_items {c : Char} (hc : isSpace c = false) (hne : c ≠ ']') (fuel : Nat)
    (s : List Char) :
    readValue (fuel + 1) ('[' :: c :: s) =
      (readItems fuel (c :: s)).map fun (items, rest) => (.array items, rest) := by
  rw [readValue, skipSpace_cons (by decide)]
  simp only [skipSpace_cons hc]
  split
  · next heq => exact absurd (List.cons.inj heq).1 hne
  · rfl

theorem readValue_members (fuel : Nat) (k : String) (s : List Char) :
    readValue (fuel + 1) ('\x7b' :: (stringChars k ++ s)) =
      (readMembers fuel (stringChars k ++ s)).map fun (members, rest) =>
        (ofMembers members, rest) := by
  rw [stringChars_append]
  rfl

theorem readValue_string (fuel : Nat) (s : String) (rest : List Char) :
    readValue (fuel + 1) (stringChars s ++ rest) = some (string s, rest) := by
  rw [stringChars_append, readValue, skipSpace_cons (by decide)]
  simp only [readString_escaped, Option.map_some, Option.elim_some]

theorem Legible.exists_chars_eq {j : Json} (h : j.Legible) :
    ∃ c s, j.chars = c :: s ∧ isSpace c = false ∧ c ≠ ']' := by
  cases h with
  | null => exact ⟨'n', _, rfl, by decide⟩
  | bool b => cases b <;> exact ⟨_, _, rfl, by decide⟩
  | number hn =>
      obtain ⟨c, s, htext, hc⟩ := exists_text_eq hn
      refine ⟨c, s, htext, isSpace_of_startsNumber hc, ?_⟩
      rintro rfl
      cases hc
  | string s => exact ⟨_, _, rfl, by decide⟩
  | @array items hitems => cases items <;> exact ⟨'[', _, rfl, by decide⟩
  | @object members hmembers =>
      cases members <;> exact ⟨_, _, rfl, by decide⟩

theorem readItems_last {v : Json} (hv : readValue fuel s = some (v, ']' :: rest)) :
    readItems (fuel + 1) s = some ([v], rest) := by
  rw [readItems, hv]
  rfl

theorem readItems_comma {v : Json} {items : List Json} {t : List Char}
    (hv : readValue fuel s = some (v, ',' :: t)) (hitems : readItems fuel t = some (items, rest)) :
    readItems (fuel + 1) s = some (v :: items, rest) := by
  rw [readItems, hv]
  change (readItems fuel t).bind _ = _
  rw [hitems]
  rfl

theorem readItems_append {v : Json} {vs : List Json} (hreads : ∀ j ∈ v :: vs, j.Reads)
    (hfuel : v.chars.length + (restOfArray vs).length ≤ fuel) :
    readItems fuel (v.chars ++ (restOfArray vs ++ rest)) = some (v :: vs, rest) := by
  induction vs generalizing v fuel with
  | nil =>
      have hv := hreads v List.mem_cons_self
      obtain ⟨spare, rfl⟩ := Nat.exists_eq_add_of_lt hfuel
      exact readItems_last (hv _ _ (Nat.le_add_right _ _) (Text.startsOutside_cons (by decide)))
  | cons w vs ih =>
      have hv := hreads v List.mem_cons_self
      have hrest : ∀ j ∈ w :: vs, j.Reads := fun j hj => hreads j (List.mem_cons_of_mem v hj)
      simp only [restOfArray, List.length_cons, List.length_append] at hfuel
      obtain ⟨spare, rfl⟩ := Nat.exists_eq_add_of_lt (show v.chars.length < fuel by omega)
      rw [restOfArray, List.cons_append, List.append_assoc]
      refine readItems_comma
        (hv _ _ (Nat.le_add_right _ _) (Text.startsOutside_cons (by decide))) ?_
      exact ih hrest (by omega)

theorem readMembers_last {v : Json} (k : String)
    (hv : readValue fuel s = some (v, '\x7d' :: rest)) :
    readMembers (fuel + 1) (stringChars k ++ ':' :: s) = some ([(some k, v)], rest) := by
  rw [stringChars_append, readMembers, skipSpace_cons (by decide)]
  simp only [readString_escaped]
  change (readValue fuel s).bind _ = _
  rw [hv]
  rfl

theorem readMembers_comma {v : Json} {members : List (Option String × Json)} {t : List Char}
    (k : String) (hv : readValue fuel s = some (v, ',' :: t))
    (hmembers : readMembers fuel t = some (members, rest)) :
    readMembers (fuel + 1) (stringChars k ++ ':' :: s) =
      some ((some k, v) :: members, rest) := by
  rw [stringChars_append, readMembers, skipSpace_cons (by decide)]
  simp only [readString_escaped]
  change (readValue fuel s).bind _ = _
  rw [hv]
  change (readMembers fuel t).bind _ = _
  rw [hmembers]
  rfl

theorem readMembers_append {k : String} {v : Json} {ms : List (String × Json)}
    (hreads : ∀ m ∈ (k, v) :: ms, m.2.Reads)
    (hfuel : v.chars.length + (restOfObject ms).length ≤ fuel) :
    readMembers fuel (stringChars k ++ ':' :: (v.chars ++ (restOfObject ms ++ rest))) =
      some (((k, v) :: ms).map fun m => (some m.1, m.2), rest) := by
  induction ms generalizing k v fuel with
  | nil =>
      have hv := hreads (k, v) List.mem_cons_self
      obtain ⟨spare, rfl⟩ := Nat.exists_eq_add_of_lt hfuel
      exact readMembers_last k
        (hv _ _ (Nat.le_add_right _ _) (Text.startsOutside_cons (by decide)))
  | cons m ms ih =>
      obtain ⟨l, w⟩ := m
      have hv := hreads (k, v) List.mem_cons_self
      have hrest : ∀ m ∈ (l, w) :: ms, m.2.Reads :=
        fun m hm => hreads m (List.mem_cons_of_mem (k, v) hm)
      simp only [restOfObject, List.length_cons, List.length_append] at hfuel
      obtain ⟨spare, rfl⟩ := Nat.exists_eq_add_of_lt (show v.chars.length < fuel by omega)
      rw [restOfObject, List.cons_append, List.append_assoc, List.cons_append, List.append_assoc]
      refine readMembers_comma k
        (hv _ _ (Nat.le_add_right _ _) (Text.startsOutside_cons (by decide))) ?_
      exact ih hrest (by omega)

/-- Names that are all text leave no object garbled. -/
theorem ofMembers_map_some (members : List (String × Json)) :
    ofMembers (members.map fun m => (some m.1, m.2)) = object members := by
  have hnames : members.mapM some = some members := List.mapM_pure.trans (by rw [List.map_id']; rfl)
  unfold ofMembers
  rw [List.mapM_map]
  split
  · next named heq => rw [Option.some_inj.mp (heq.symm.trans hnames)]
  · next heq => exact absurd (heq.symm.trans hnames) nofun

theorem reads_of_succ {j : Json} {c : Char} {t : List Char} (hchars : j.chars = c :: t)
    (h : ∀ fuel rest, t.length ≤ fuel → StartsOutside isNumberChar rest →
      readValue (fuel + 1) (c :: t ++ rest) = some (j, rest)) : j.Reads := by
  intro fuel rest hfuel hrest
  rw [hchars] at hfuel ⊢
  obtain ⟨spare, rfl⟩ := Nat.exists_eq_add_of_lt hfuel
  exact h _ rest (Nat.le_add_right _ _) hrest

theorem reads_array {v : Json} {vs : List Json} (hv : v.Legible)
    (hreads : ∀ j ∈ v :: vs, j.Reads) : (array (v :: vs)).Reads := by
  refine reads_of_succ rfl ?_
  intro fuel rest hfuel hrest
  obtain ⟨c, t, hchars, hc, hne⟩ := hv.exists_chars_eq
  rw [List.length_append] at hfuel
  rw [List.cons_append, List.append_assoc, hchars, List.cons_append, readValue_items hc hne,
    ← List.cons_append, ← hchars, readItems_append hreads hfuel]
  rfl

theorem reads_object {m : String × Json} {ms : List (String × Json)}
    (hreads : ∀ n ∈ m :: ms, n.2.Reads) : (object (m :: ms)).Reads := by
  obtain ⟨k, v⟩ := m
  refine reads_of_succ rfl ?_
  intro fuel rest hfuel hrest
  rw [List.length_append, List.length_cons, List.length_append] at hfuel
  rw [List.cons_append, List.append_assoc, List.cons_append, List.append_assoc, readValue_members,
    readMembers_append hreads (by omega)]
  simp only [Option.map_some, ofMembers_map_some]

theorem Legible.reads {j : Json} (h : j.Legible) : j.Reads := by
  induction h with
  | null => exact reads_of_succ rfl fun _ _ _ _ => rfl
  | bool b => cases b <;> exact reads_of_succ rfl fun _ _ _ _ => rfl
  | number hn =>
      obtain ⟨c, t, htext, hc⟩ := exists_text_eq hn
      refine reads_of_succ htext ?_
      intro fuel rest _ hrest
      rw [List.cons_append, readValue_number hc, ← List.cons_append, ← htext,
        readNumber_text hn hrest]
  | string s =>
      refine reads_of_succ (stringChars_eq s) ?_
      intro fuel rest _ _
      rw [← stringChars_eq, readValue_string]
  | @array items hitems ih =>
      cases items with
      | nil => exact reads_of_succ rfl fun _ _ _ _ => rfl
      | cons v vs => exact reads_array (hitems v List.mem_cons_self) ih
  | @object members hmembers ih =>
      cases members with
      | nil => exact reads_of_succ rfl fun _ _ _ _ => rfl
      | cons m ms => exact reads_object ih

theorem ofText?_text {j : Json} (h : j.Legible) : ofText? j.text = some j := by
  have hread : readValue (2 * j.chars.length + 2) (j.chars ++ []) = some (j, []) :=
    h.reads _ [] (by omega) Text.startsOutside_nil
  rw [List.append_nil] at hread
  rw [ofText?, text, String.toList_ofList, ofChars?, hread]
  rfl

mutual

/-- How many containers of a document are open at once. -/
def nesting : Json → Nat
  | array items => itemsNesting items + 1
  | object members => membersNesting members + 1
  | _ => 0

def itemsNesting : List Json → Nat
  | [] => 0
  | j :: rest => max (nesting j) (itemsNesting rest)

def membersNesting : List (String × Json) → Nat
  | [] => 0
  | (_, j) :: rest => max (nesting j) (membersNesting rest)

end

theorem nesting_tagged (name : String) (payload : Json) :
    (tagged name payload).nesting = payload.nesting + 1 := by
  simp [tagged, nesting, membersNesting]

end Json

end RecordFilter
