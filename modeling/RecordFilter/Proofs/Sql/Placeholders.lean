import RecordFilter.Proofs.Sql.Reading

/-!
What of a query enters its statement. The text has one placeholder for each value, numbered from
left to right, and nothing else of the values: queries that differ in their values alone have one
text.
-/

namespace RecordFilter

namespace Sql

open Text

/-- The text of each placeholder: a dollar sign outside quotes with the digits behind it. The flag
is set inside quotes. A doubled quote ends one quotation and begins the next. -/
def placeholdersFrom (quoted : Bool) : List Char → List String
  | [] => []
  | c :: s =>
      if c = '"' then placeholdersFrom (!quoted) s
      else if c = '$' ∧ quoted = false then
        String.ofList ('$' :: s.takeWhile Char.isDigit) :: placeholdersFrom quoted s
      else placeholdersFrom quoted s

def placeholders (text : String) : List String :=
  placeholdersFrom false text.toList

/-- Whether a place is inside quotes, from whether the place before a text is. -/
def quotedAfter (quoted : Bool) (s : List Char) : Bool :=
  s.foldl (fun quoted c => if c = '"' then !quoted else quoted) quoted

variable {quoted : Bool} {s t : List Char}

theorem placeholdersFrom_append (ht : StartsOutside Char.isDigit t) :
    placeholdersFrom quoted (s ++ t) =
      placeholdersFrom quoted s ++ placeholdersFrom (quotedAfter quoted s) t := by
  induction s generalizing quoted with
  | nil => rfl
  | cons c s ih =>
      rw [List.cons_append, placeholdersFrom, placeholdersFrom, quotedAfter, List.foldl_cons,
        ← quotedAfter, takeWhile_append ht]
      split
      · exact ih
      · split
        · rw [ih, List.cons_append]
        · exact ih

/-- A character that neither begins a placeholder nor stands at an end of a quotation. -/
def isPlain (c : Char) : Bool :=
  c != '"' && c != '$'

/-- A text that begins no quotation that it does not end, with its placeholders. What stands before
it is not lengthened by its first character. -/
structure Shows (s : List Char) (found : List String) : Prop where
  starts : StartsOutside Char.isDigit s
  found : placeholdersFrom false s = found
  closed : quotedAfter false s = false

namespace Shows

variable {found others : List String}

theorem append (hs : Shows s found) (ht : Shows t others) : Shows (s ++ t) (found ++ others) where
  starts := hs.starts.append ht.starts
  found := by
    rw [placeholdersFrom_append ht.starts, hs.closed, hs.found, ht.found]
  closed := by
    rw [quotedAfter, List.foldl_append, ← quotedAfter, ← quotedAfter, hs.closed, ht.closed]

end Shows

theorem isPlain_iff {c : Char} : isPlain c = true ↔ c ≠ '"' ∧ c ≠ '$' := by
  rw [isPlain, Bool.and_eq_true, bne_iff_ne, bne_iff_ne]

theorem placeholdersFrom_of_plain (h : s.all isPlain = true) :
    placeholdersFrom quoted s = [] ∧ quotedAfter quoted s = quoted := by
  induction s with
  | nil => exact ⟨rfl, rfl⟩
  | cons c s ih =>
      rw [List.all_cons, Bool.and_eq_true, isPlain_iff] at h
      obtain ⟨⟨hquote, hdollar⟩, hrest⟩ := h
      obtain ⟨hfound, hclosed⟩ := ih hrest
      rw [placeholdersFrom, if_neg hquote, if_neg fun hc => hdollar hc.1, quotedAfter,
        List.foldl_cons, if_neg hquote]
      exact ⟨hfound, hclosed⟩

theorem shows_of_plain (hstarts : StartsOutside Char.isDigit s) (h : s.all isPlain = true) :
    Shows s [] :=
  ⟨hstarts, (placeholdersFrom_of_plain h).1, (placeholdersFrom_of_plain h).2⟩

theorem shows_argumentText (n : Nat) : Shows (argumentText n) ["$" ++ toString n] := by
  have hdigit : ∀ c ∈ Nat.toDigits 10 n, c.isDigit = true :=
    fun c => Number.isDigit_of_mem_toDigits
  have hplain : (Nat.toDigits 10 n).all isPlain = true := by
    refine List.all_eq_true.mpr fun c hc => isPlain_iff.mpr ?_
    constructor <;> rintro rfl <;> exact absurd (hdigit _ hc) (by decide)
  have hrun : (Nat.toDigits 10 n).takeWhile Char.isDigit = Nat.toDigits 10 n := by
    rw [List.takeWhile_eq_self_iff]
    exact hdigit
  have htext : String.ofList (argumentText n) = "$" ++ toString n := by
    rw [argumentText, String.ofList_cons, String.ofList_toList]
    rfl
  rw [← htext, argumentText_eq]
  constructor
  · exact startsOutside_cons (by decide)
  · rw [placeholdersFrom, if_neg (by decide), if_pos (by decide), hrun,
      (placeholdersFrom_of_plain hplain).1]
  · exact (placeholdersFrom_of_plain hplain).2

/-- Inside its quotes a part of a name may hold anything. -/
theorem placeholdersFrom_doubleQuotes (part r : List Char) :
    placeholdersFrom true (doubleQuotes part ++ r) = placeholdersFrom true r ∧
      quotedAfter true (doubleQuotes part ++ r) = quotedAfter true r := by
  induction part with
  | nil => exact ⟨rfl, rfl⟩
  | cons c part ih =>
      by_cases hc : c = '"'
      · subst hc
        rw [doubleQuotes_quote]
        exact ih
      · rw [doubleQuotes_cons hc, List.cons_append, placeholdersFrom, if_neg hc,
          if_neg (by simp), quotedAfter, List.foldl_cons, if_neg hc]
        exact ih

theorem shows_quotedPart (part : List Char) : Shows (quotedPart part) [] := by
  obtain ⟨hfound, hclosed⟩ := placeholdersFrom_doubleQuotes part ['"']
  exact ⟨startsOutside_cons (by decide), hfound, hclosed⟩

theorem shows_othersText (parts : List (List Char)) : Shows (othersText parts) [] := by
  induction parts with
  | nil => exact ⟨startsOutside_nil, rfl, rfl⟩
  | cons part parts ih =>
      have hpoint : Shows ['.'] [] :=
        shows_of_plain (startsOutside_cons (by decide)) rfl
      rw [othersText_cons]
      exact (hpoint.append (shows_quotedPart part)).append ih

theorem Name.shows (n : Name) : Shows n.text [] :=
  (shows_quotedPart n.first).append (shows_othersText n.others)

theorem Keyword.shows (k : Keyword) : Shows k.text.toList [] := by
  have hall : ∀ k ∈ all, k.text.toList.all isPlain = true := by
    decide +kernel
  obtain ⟨rest, hrest⟩ := k.exists_text_eq
  refine shows_of_plain ?_ (hall k (mem_all k))
  rw [hrest]
  exact startsOutside_cons (by decide)

theorem shows_andText : Shows andText [] :=
  shows_of_plain (startsOutside_cons (by decide)) rfl

theorem shows_orText : Shows orText [] :=
  shows_of_plain (startsOutside_cons (by decide)) rfl

/-- The numbers of the placeholders of a test from left to right. -/
def Test.numbers : Test → List Nat
  | compare _ n => [n]
  | like _ n => [n]
  | between n m => [n, m]
  | isNull => []
  | isNotNull => []

def Leaf.numbers : Leaf → List Nat
  | truth => []
  | test _ t => t.numbers

mutual

def Chain.numbers : Chain → List Nat
  | .one f => f.numbers
  | .and f rest => f.numbers ++ rest.numbers

def Factor.numbers : Factor → List Nat
  | .leaf l => l.numbers
  | .either left right => left.numbers ++ right.numbers

end

theorem Test.shows (t : Test) : Shows t.text (t.numbers.map fun n => "$" ++ toString n) := by
  rw [Test.text]
  cases t with
  | compare comparison n => exact (Keyword.shows _).append (shows_argumentText n)
  | like negated n => exact (Keyword.shows _).append (shows_argumentText n)
  | between n m =>
      exact (Keyword.shows _).append
        ((shows_argumentText n).append (shows_andText.append (shows_argumentText m)))
  | isNull => exact (Keyword.shows _).append ⟨startsOutside_nil, rfl, rfl⟩
  | isNotNull => exact (Keyword.shows _).append ⟨startsOutside_nil, rfl, rfl⟩

theorem Leaf.shows (l : Leaf) : Shows l.text (l.numbers.map fun n => "$" ++ toString n) := by
  cases l with
  | truth => exact shows_of_plain (startsOutside_cons (by decide)) rfl
  | test name t => exact name.shows.append t.shows

mutual

theorem Chain.shows (c : Chain) : Shows c.text (c.numbers.map fun n => "$" ++ toString n) := by
  cases c with
  | one f =>
      rw [Chain.text, Chain.numbers]
      exact f.shows
  | and f rest =>
      rw [Chain.text, Chain.numbers, List.map_append]
      exact f.shows.append (shows_andText.append rest.shows)

theorem Factor.shows (f : Factor) : Shows f.text (f.numbers.map fun n => "$" ++ toString n) := by
  cases f with
  | leaf l =>
      rw [Factor.text, Factor.numbers]
      exact l.shows
  | either left right =>
      have hopening : Shows ['('] [] :=
        shows_of_plain (startsOutside_cons (by decide)) rfl
      have hclosing : Shows [')'] [] :=
        shows_of_plain (startsOutside_cons (by decide)) rfl
      have hinner := left.shows.append (shows_orText.append right.shows)
      rw [Factor.text, Factor.numbers, List.map_append]
      simpa using (hopening.append hinner).append hclosing

end

theorem Chain.numbers_append (c d : Chain) : (c.append d).numbers = c.numbers ++ d.numbers := by
  cases c with
  | one f => rw [Chain.append, Chain.numbers, Chain.numbers]
  | and f rest =>
      rw [Chain.append, Chain.numbers, Chain.numbers, rest.numbers_append d, List.append_assoc]

end Sql

namespace Query

open Sql

/-- A value of a query: a constant that a field is compared with, or a text that is searched for. -/
inductive Value where
  | constant (v : Scalar)
  | searched (s : String)

/-- A text with a backslash before each character that a pattern reads as more than itself. -/
def escaped : List Char → List Char
  | [] => []
  | '%' :: s => '\\' :: '%' :: escaped s
  | '_' :: s => '\\' :: '_' :: escaped s
  | '\\' :: s => '\\' :: '\\' :: escaped s
  | c :: s => c :: escaped s

/-- The argument that a value becomes. What is searched for may stand anywhere in a text. -/
def Value.argument : Value → Scalar
  | constant v => v
  | searched s => .text ("%" ++ String.ofList (escaped s.toList) ++ "%")

/-- The values of a query from left to right. -/
def values : Query → List Value
  | all => []
  | compare _ _ v => [.constant v]
  | contains _ s _ => [.searched s]
  | between _ least greatest => [.constant least, .constant greatest]
  | isNull _ => []
  | isNotNull _ => []
  | and left right => values left ++ values right
  | or left right => values left ++ values right

/-- Queries that differ in their values alone. -/
inductive SameShape : Query → Query → Prop where
  | all : SameShape all all
  | compare (field : String) (comparison : Comparison) (v w : Scalar) :
      SameShape (compare field comparison v) (compare field comparison w)
  | contains (field : String) (s t : String) (negated : Bool) :
      SameShape (contains field s negated) (contains field t negated)
  | between (field : String) (least greatest least' greatest' : Scalar) :
      SameShape (between field least greatest) (between field least' greatest')
  | isNull (field : String) : SameShape (isNull field) (isNull field)
  | isNotNull (field : String) : SameShape (isNotNull field) (isNotNull field)
  | and {p p' q q' : Query} : SameShape p p' → SameShape q q' → SameShape (and p q) (and p' q')
  | or {p p' q q' : Query} : SameShape p p' → SameShape q q' → SameShape (or p q) (or p' q')

theorem escapePattern_eq_escaped (s : List Char) : escapePattern s = escaped s := by
  induction s using escaped.induct with
  | case1 => rfl
  | case2 s ih | case3 s ih | case4 s ih =>
      rw [escaped, ← ih, escapePattern_cons]
      rfl
  | case5 c s hpercent hunderscore hbackslash ih =>
      have hplain : ¬(c = '\\' ∨ c = '%' ∨ c = '_') := by
        rintro (hc | hc | hc)
        · exact hbackslash hc
        · exact hpercent hc
        · exact hunderscore hc
      rw [escaped, ← ih, escapePattern_cons, if_neg hplain, List.singleton_append]
      all_goals assumption

theorem argument_searched (s : String) :
    (Value.searched s).argument = .text (containsPattern s) := by
  have htext : "%" ++ String.ofList (escaped s.toList) ++ "%" = containsPattern s := by
    rw [containsPattern, escapePattern_eq_escaped, ← String.toList_inj]
    simp
  rw [Value.argument, htext]

theorem map_argument_values (q : Query) : q.values.map Value.argument = q.arguments := by
  induction q with
  | and left right ihLeft ihRight => rw [values, List.map_append, ihLeft, ihRight, arguments]
  | or left right ihLeft ihRight => rw [values, List.map_append, ihLeft, ihRight, arguments]
  | contains field s negated =>
      rw [values, List.map_singleton, argument_searched, arguments]
  | _ => rfl

theorem SameShape.length_arguments {p q : Query} (h : SameShape p q) :
    p.arguments.length = q.arguments.length := by
  induction h with
  | and _ _ ihLeft ihRight => simp only [arguments, List.length_append, ihLeft, ihRight]
  | or _ _ ihLeft ihRight => simp only [arguments, List.length_append, ihLeft, ihRight]
  | _ => rfl

theorem SameShape.reading_eq {p q : Query} (h : SameShape p q) (before : Nat) :
    p.reading before = q.reading before := by
  induction h generalizing before with
  | and hleft _ ihLeft ihRight =>
      rw [reading, reading, ihLeft, ihRight, hleft.length_arguments]
  | or hleft _ ihLeft ihRight =>
      rw [reading, reading, ihLeft, ihRight, hleft.length_arguments]
  | _ => rfl

/-- Behind `before` arguments, the placeholders of a query go on counting from there. -/
theorem numbers_reading (q : Query) (before : Nat) :
    (q.reading before).numbers = List.range' (before + 1) q.arguments.length := by
  induction q generalizing before with
  | and left right ihLeft ihRight =>
      rw [reading, Chain.numbers_append, ihLeft, ihRight, arguments, List.length_append,
        ← List.range'_append_1, Nat.add_right_comm]
  | or left right ihLeft ihRight =>
      rw [reading, Chain.numbers, Factor.numbers, ihLeft, ihRight, arguments, List.length_append,
        ← List.range'_append_1, Nat.add_right_comm]
  | _ => rfl

theorem SameShape.text_toSql {p q : Query} (h : SameShape p q) : p.toSql.text = q.toSql.text := by
  rw [← String.toList_inj, Query.text_toSql, Query.text_toSql, h.reading_eq]

theorem placeholders_toSql (q : Query) :
    placeholders q.toSql.text =
      (List.range' 1 q.arguments.length).map fun n => "$" ++ toString n := by
  rw [placeholders, text_toSql, (q.reading 0).shows.found, numbers_reading]

/-- The text of a statement does not depend on the values; outside quotes it holds one placeholder
for each value, in order, and the arguments are the values in the same order. -/
theorem toSql_placeholders (q : Query) :
    (∀ p, SameShape p q → p.toSql.text = q.toSql.text) ∧
      placeholders q.toSql.text =
        (List.range' 1 q.values.length).map (fun n => "$" ++ toString n) ∧
      q.toSql.arguments = q.values.map Value.argument := by
  refine ⟨fun p h => h.text_toSql, ?_, ?_⟩
  · have hlength : q.values.length = q.arguments.length := by
      rw [← map_argument_values, List.length_map]
    rw [placeholders_toSql, hlength]
  · rw [arguments_toSql, map_argument_values]

theorem toSql_placeholders_dollar :
    let q := and (compare "a\"$1" .equal (.text "x"))
      (or (contains "b" "50%_\\" true) (between "c.$2" (.int32 1) (.int32 2)))
    let p := and (compare "a\"$1" .equal (.text "\" OR $9"))
      (or (contains "b" "$3" true) (between "c.$2" .null (.bool true)))
    q.toSql.text =
        "\"a\"\"$1\" = $1 AND (\"b\" NOT LIKE $2 OR \"c\".\"$2\" BETWEEN $3 AND $4)" ∧
      p.toSql.text = q.toSql.text ∧ placeholders q.toSql.text = ["$1", "$2", "$3", "$4"] ∧
      q.toSql.arguments = [.text "x", .text "%50\\%\\_\\\\%", .int32 1, .int32 2] := by
  intro q p
  have hshape : SameShape p q :=
    .and (.compare _ _ _ _) (.or (.contains _ _ _ _) (.between _ _ _ _ _))
  obtain ⟨htext, hplaceholders, harguments⟩ := toSql_placeholders q
  refine ⟨rfl, htext p hshape, hplaceholders, ?_⟩
  rw [harguments]
  rfl

end Query

end RecordFilter
