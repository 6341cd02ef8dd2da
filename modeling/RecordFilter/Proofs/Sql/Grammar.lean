import RecordFilter.Query.Statement
import RecordFilter.Proofs.Text.Run

/-!
The language of SQL conditions, as far as queries are written in it. A reading of a text is a tree
of the grammar that is written as this text. `AND` binds tighter than `OR`, and a text has at most
one reading.
-/

namespace RecordFilter.Sql

open Text

/-- A name of at least one part; each part stands in quotes, with a point between two parts. -/
structure Name where
  first : List Char
  others : List (List Char)

/-- The fixed words of a test. -/
inductive Keyword where
  | compare (comparison : Comparison)
  | like (negated : Bool)
  | between
  | isNull
  | isNotNull
  deriving DecidableEq

/-- What is asked of a named field, where arguments stand as the numbers of their placeholders. -/
inductive Test where
  | compare (comparison : Comparison) (argument : Nat)
  | like (negated : Bool) (argument : Nat)
  | between (least greatest : Nat)
  | isNull
  | isNotNull

inductive Leaf where
  | truth
  | test (name : Name) (test : Test)

mutual

inductive Term where
  | leaf (l : Leaf)
  | parenthesized (d : Disjunction)

/-- Terms joined by `AND`. -/
inductive Conjunction where
  | one (t : Term)
  | and (t : Term) (rest : Conjunction)

/-- Conjunctions joined by `OR`. -/
inductive Disjunction where
  | one (c : Conjunction)
  | or (c : Conjunction) (rest : Disjunction)

end

/-- The parts of a name after the first one. -/
def othersText (parts : List (List Char)) : List Char :=
  parts.flatMap fun part => '.' :: quotedPart part

def Name.text (n : Name) : List Char :=
  quotedPart n.first ++ othersText n.others

def Keyword.text : Keyword → String
  | compare .equal => " = "
  | compare .notEqual => " <> "
  | compare .lessThan => " < "
  | compare .lessThanOrEqual => " <= "
  | compare .greaterThan => " > "
  | compare .greaterThanOrEqual => " >= "
  | like negated => if negated then " NOT LIKE " else " LIKE "
  | between => " BETWEEN "
  | isNull => " IS NULL"
  | isNotNull => " IS NOT NULL"

/-- The placeholder with a number. -/
def argumentText (n : Nat) : List Char :=
  '$' :: (toString n).toList

def andText : List Char :=
  " AND ".toList

def orText : List Char :=
  " OR ".toList

namespace Test

def keyword : Test → Keyword
  | compare comparison _ => .compare comparison
  | like negated _ => .like negated
  | between _ _ => .between
  | isNull => .isNull
  | isNotNull => .isNotNull

def operands : Test → List Char
  | compare _ n => argumentText n
  | like _ n => argumentText n
  | between n m => argumentText n ++ (andText ++ argumentText m)
  | isNull => []
  | isNotNull => []

def text (t : Test) : List Char :=
  t.keyword.text.toList ++ t.operands

end Test

def Leaf.text : Leaf → List Char
  | truth => "TRUE".toList
  | test name t => name.text ++ t.text

mutual

def Term.text : Term → List Char
  | .leaf l => l.text
  | .parenthesized d => '(' :: d.text ++ [')']

def Conjunction.text : Conjunction → List Char
  | .one t => t.text
  | .and t rest => t.text ++ (andText ++ rest.text)

def Disjunction.text : Disjunction → List Char
  | .one c => c.text
  | .or c rest => c.text ++ (orText ++ rest.text)

end

theorem doubleQuotes_quote (t : List Char) :
    doubleQuotes ('"' :: t) = '"' :: '"' :: doubleQuotes t := by
  simp [doubleQuotes]

theorem doubleQuotes_cons {c : Char} (hc : c ≠ '"') (t : List Char) :
    doubleQuotes (c :: t) = c :: doubleQuotes t := by
  simp [doubleQuotes, hc]

/-- Reads a quoted part up to the first quote that is not doubled, and gives back the rest. -/
def splitQuoted : List Char → List Char × List Char
  | [] => ([], [])
  | '"' :: '"' :: s => Prod.map ('"' :: ·) id (splitQuoted s)
  | '"' :: s => ([], s)
  | c :: s => Prod.map (c :: ·) id (splitQuoted s)

theorem splitQuoted_append {r : List Char} (hr : StartsOutside (· == '"') r) (t : List Char) :
    splitQuoted (doubleQuotes t ++ '"' :: r) = (t, r) := by
  induction t with
  | nil =>
      rcases r with _ | ⟨c, r⟩
      · rfl
      · have hc : c ≠ '"' := by simpa using hr c rfl
        simp [doubleQuotes, splitQuoted, hc]
  | cons c t ih =>
      by_cases hc : c = '"'
      · subst hc
        rw [doubleQuotes_quote]
        simp [splitQuoted, ih]
      · rw [doubleQuotes_cons hc]
        simp [splitQuoted, ih, hc]

theorem quotedPart_append_inj {t u r s : List Char} (hr : StartsOutside (· == '"') r)
    (hs : StartsOutside (· == '"') s) (h : quotedPart t ++ r = quotedPart u ++ s) :
    t = u ∧ r = s := by
  simp only [quotedPart, List.cons_append, List.append_assoc, List.nil_append,
    List.cons.injEq, true_and] at h
  have hsplit := congrArg splitQuoted h
  rw [splitQuoted_append hr, splitQuoted_append hs] at hsplit
  exact Prod.mk.inj hsplit

theorem othersText_cons (part : List Char) (parts : List (List Char)) :
    othersText (part :: parts) = '.' :: quotedPart part ++ othersText parts :=
  rfl

theorem startsOutside_othersText (parts : List (List Char)) (r : List Char) :
    StartsOutside (· == '"') (othersText parts ++ ' ' :: r) := by
  cases parts with
  | nil => exact startsOutside_cons (by decide)
  | cons part parts => exact startsOutside_cons (by decide)

theorem othersText_append_inj {ps qs : List (List Char)} {r s : List Char}
    (h : othersText ps ++ ' ' :: r = othersText qs ++ ' ' :: s) : ps = qs ∧ r = s := by
  induction ps generalizing qs with
  | nil =>
      cases qs with
      | nil => exact ⟨rfl, (List.cons.inj h).2⟩
      | cons q qs => exact absurd (List.cons.inj h).1 (by decide)
  | cons p ps ih =>
      cases qs with
      | nil => exact absurd (List.cons.inj h).1 (by decide)
      | cons q qs =>
          simp only [othersText_cons, List.cons_append, List.append_assoc, List.cons.injEq,
            true_and] at h
          obtain ⟨rfl, hrest⟩ := quotedPart_append_inj (startsOutside_othersText ps r)
            (startsOutside_othersText qs s) h
          obtain ⟨rfl, hrs⟩ := ih hrest
          exact ⟨rfl, hrs⟩

/-- A name ends at a blank; its parts are told apart by the points after their quotes. -/
theorem Name.text_append_inj {n m : Name} {r s : List Char}
    (h : n.text ++ ' ' :: r = m.text ++ ' ' :: s) : n = m ∧ r = s := by
  rcases n with ⟨first, others⟩
  rcases m with ⟨first', others'⟩
  simp only [Name.text, List.append_assoc] at h
  obtain ⟨rfl, hothers⟩ := quotedPart_append_inj (startsOutside_othersText others r)
    (startsOutside_othersText others' s) h
  obtain ⟨rfl, hrs⟩ := othersText_append_inj hothers
  exact ⟨rfl, hrs⟩

theorem argumentText_eq (n : Nat) : argumentText n = '$' :: Nat.toDigits 10 n := by
  rw [argumentText, Nat.toString_eq_repr, Nat.repr_eq_ofList_toDigits, String.toList_ofList]

theorem argumentText_append_inj {n m : Nat} {r s : List Char} (hr : StartsOutside Char.isDigit r)
    (hs : StartsOutside Char.isDigit s) (h : argumentText n ++ r = argumentText m ++ s) :
    n = m ∧ r = s := by
  rw [argumentText_eq, argumentText_eq, List.cons_append, List.cons_append,
    List.cons_inj_right] at h
  have hdigits : ∀ k : Nat, ∀ c ∈ Nat.toDigits 10 k, c.isDigit = true :=
    fun k c hc => Nat.isDigit_of_mem_toDigits (by decide) (by decide) hc
  obtain ⟨hnm, hrs⟩ := run_append_inj (hdigits n) (hdigits m) hr hs h
  refine ⟨?_, hrs⟩
  have hvalue := congrArg (fun digits => Nat.ofDigitChars 10 digits 0) hnm
  simpa only [Nat.ofDigitChars_ten_toDigits] using hvalue

namespace Keyword

def all : List Keyword :=
  [.compare .equal, .compare .notEqual, .compare .lessThan, .compare .lessThanOrEqual,
    .compare .greaterThan, .compare .greaterThanOrEqual, .like true, .like false, .between,
    .isNull, .isNotNull]

theorem mem_all (k : Keyword) : k ∈ all := by
  rcases k with (_ | _ | _ | _ | _ | _) | (_ | _) | _ | _ | _ <;> decide

theorem exists_text_eq (k : Keyword) : ∃ rest, k.text.toList = ' ' :: rest := by
  have hall : ∀ k ∈ all, k.text.toList.head? = some ' ' := by
    decide +kernel
  exact List.head?_eq_some_iff.mp (hall k (mem_all k))

/-- No keyword goes on to be another one. -/
theorem eq_of_text_startsWith {k l : Keyword} (h : k.text.toList <+: l.text.toList) : k = l := by
  have hall : ∀ k ∈ all, ∀ l ∈ all, k.text.toList <+: l.text.toList → k = l := by
    decide +kernel
  exact hall k (mem_all k) l (mem_all l) h

theorem text_append_inj {k l : Keyword} {r s : List Char}
    (h : k.text.toList ++ r = l.text.toList ++ s) : k = l ∧ r = s := by
  have hkl : k = l := by
    rcases List.prefix_or_prefix_of_prefix ⟨r, h⟩ ⟨s, rfl⟩ with hprefix | hprefix
    · exact eq_of_text_startsWith hprefix
    · exact (eq_of_text_startsWith hprefix).symm
  subst hkl
  exact ⟨rfl, List.append_cancel_left h⟩

end Keyword

theorem startsOutside_andText (r : List Char) : StartsOutside Char.isDigit (andText ++ r) :=
  startsOutside_cons (by decide)

theorem startsOutside_orText (r : List Char) : StartsOutside Char.isDigit (orText ++ r) :=
  startsOutside_cons (by decide)

/-- `BETWEEN` takes the first `AND` after it, since one argument has to follow. -/
theorem Test.text_append_inj {t u : Test} {r s : List Char} (hr : StartsOutside Char.isDigit r)
    (hs : StartsOutside Char.isDigit s) (h : t.text ++ r = u.text ++ s) : t = u ∧ r = s := by
  simp only [Test.text, List.append_assoc] at h
  obtain ⟨hkeyword, h⟩ := Keyword.text_append_inj h
  cases t with
  | compare c n =>
      cases u with
      | compare d m =>
          cases hkeyword
          obtain ⟨rfl, hrs⟩ := argumentText_append_inj hr hs h
          exact ⟨rfl, hrs⟩
      | _ => cases hkeyword
  | like negated n =>
      cases u with
      | like negated' m =>
          cases hkeyword
          obtain ⟨rfl, hrs⟩ := argumentText_append_inj hr hs h
          exact ⟨rfl, hrs⟩
      | _ => cases hkeyword
  | between least greatest =>
      cases u with
      | between least' greatest' =>
          simp only [operands, List.append_assoc] at h
          obtain ⟨rfl, hrest⟩ := argumentText_append_inj (startsOutside_andText _)
            (startsOutside_andText _) h
          obtain ⟨rfl, hrs⟩ := argumentText_append_inj hr hs (List.append_cancel_left hrest)
          exact ⟨rfl, hrs⟩
      | _ => cases hkeyword
  | isNull =>
      cases u with
      | isNull => exact ⟨rfl, h⟩
      | _ => cases hkeyword
  | isNotNull =>
      cases u with
      | isNotNull => exact ⟨rfl, h⟩
      | _ => cases hkeyword

theorem Test.exists_text_eq (t : Test) : ∃ rest, t.text = ' ' :: rest := by
  obtain ⟨rest, hrest⟩ := t.keyword.exists_text_eq
  exact ⟨rest ++ t.operands, by rw [Test.text, hrest, List.cons_append]⟩

theorem Leaf.text_append_inj {l m : Leaf} {r s : List Char} (hr : StartsOutside Char.isDigit r)
    (hs : StartsOutside Char.isDigit s) (h : l.text ++ r = m.text ++ s) : l = m ∧ r = s := by
  cases l with
  | truth =>
      cases m with
      | truth => exact ⟨rfl, List.append_cancel_left h⟩
      | test name t => exact absurd (List.cons.inj h).1 (by decide)
  | test name t =>
      cases m with
      | truth => exact absurd (List.cons.inj h).1 (by decide)
      | test name' u =>
          obtain ⟨trest, ht⟩ := t.exists_text_eq
          obtain ⟨urest, hu⟩ := u.exists_text_eq
          have hname := h
          simp only [Leaf.text, ht, hu, List.append_assoc, List.cons_append] at hname
          obtain ⟨rfl, -⟩ := Name.text_append_inj hname
          simp only [Leaf.text, List.append_assoc, List.append_cancel_left_eq] at h
          obtain ⟨rfl, hrs⟩ := Test.text_append_inj hr hs h
          exact ⟨rfl, hrs⟩

theorem Leaf.exists_text_eq (l : Leaf) : ∃ c rest, l.text = c :: rest ∧ c ≠ '(' := by
  cases l with
  | truth => exact ⟨_, _, rfl, by decide⟩
  | test name t => exact ⟨_, _, rfl, by decide⟩

/-- Nothing follows that a chain of terms joined by `AND` could go on with. -/
structure EndsConjunction (r : List Char) : Prop where
  digit : StartsOutside Char.isDigit r
  not_and : ¬ andText <+: r

/-- Nothing follows that a chain of conjunctions joined by `OR` could go on with. -/
structure EndsDisjunction (r : List Char) : Prop extends EndsConjunction r where
  not_or : ¬ orText <+: r

theorem endsDisjunction_nil : EndsDisjunction [] where
  digit := startsOutside_nil
  not_and := by decide
  not_or := by decide

theorem endsDisjunction_parenthesis (r : List Char) : EndsDisjunction (')' :: r) where
  digit := startsOutside_cons (by decide)
  not_and := by
    rintro ⟨rest, h⟩
    exact absurd (List.cons.inj h).1 (by decide)
  not_or := by
    rintro ⟨rest, h⟩
    exact absurd (List.cons.inj h).1 (by decide)

theorem endsConjunction_orText (r : List Char) : EndsConjunction (orText ++ r) where
  digit := startsOutside_orText r
  not_and := by
    rintro ⟨rest, h⟩
    exact absurd (List.cons.inj (List.cons.inj h).2).1 (by decide)

mutual

theorem Term.text_append_inj : ∀ {t u : Term} {r s : List Char}, StartsOutside Char.isDigit r →
    StartsOutside Char.isDigit s → t.text ++ r = u.text ++ s → t = u ∧ r = s
  | .leaf l, .leaf m, r, s, hr, hs, h => by
      obtain ⟨rfl, hrs⟩ := Leaf.text_append_inj hr hs h
      exact ⟨rfl, hrs⟩
  | .leaf l, .parenthesized d, r, s, _, _, h => by
      obtain ⟨c, rest, hl, hc⟩ := l.exists_text_eq
      simp only [Term.text, hl] at h
      exact absurd (List.cons.inj h).1 hc
  | .parenthesized d, .leaf l, r, s, _, _, h => by
      obtain ⟨c, rest, hl, hc⟩ := l.exists_text_eq
      simp only [Term.text, hl] at h
      exact absurd (List.cons.inj h).1.symm hc
  | .parenthesized d, .parenthesized e, r, s, _, _, h => by
      simp only [Term.text, List.cons_append, List.append_assoc, List.nil_append,
        List.cons.injEq, true_and] at h
      obtain ⟨rfl, hrs⟩ := Disjunction.text_append_inj (endsDisjunction_parenthesis r)
        (endsDisjunction_parenthesis s) h
      exact ⟨rfl, (List.cons.inj hrs).2⟩

theorem Conjunction.text_append_inj : ∀ {c d : Conjunction} {r s : List Char},
    EndsConjunction r → EndsConjunction s → c.text ++ r = d.text ++ s → c = d ∧ r = s
  | .one t, .one u, r, s, hr, hs, h => by
      obtain ⟨rfl, hrs⟩ := Term.text_append_inj hr.digit hs.digit h
      exact ⟨rfl, hrs⟩
  | .one t, .and u rest, r, s, hr, hs, h => by
      simp only [Conjunction.text, List.append_assoc] at h
      obtain ⟨-, rfl⟩ := Term.text_append_inj hr.digit (startsOutside_andText _) h
      exact absurd (List.prefix_append _ _) hr.not_and
  | .and t rest, .one u, r, s, hr, hs, h => by
      simp only [Conjunction.text, List.append_assoc] at h
      obtain ⟨-, rfl⟩ := Term.text_append_inj (startsOutside_andText _) hs.digit h
      exact absurd (List.prefix_append _ _) hs.not_and
  | .and t rest, .and u rest', r, s, hr, hs, h => by
      simp only [Conjunction.text, List.append_assoc] at h
      obtain ⟨rfl, hrest⟩ := Term.text_append_inj (startsOutside_andText _)
        (startsOutside_andText _) h
      obtain ⟨rfl, hrs⟩ := Conjunction.text_append_inj hr hs (List.append_cancel_left hrest)
      exact ⟨rfl, hrs⟩

theorem Disjunction.text_append_inj : ∀ {d e : Disjunction} {r s : List Char},
    EndsDisjunction r → EndsDisjunction s → d.text ++ r = e.text ++ s → d = e ∧ r = s
  | .one c, .one c', r, s, hr, hs, h => by
      obtain ⟨rfl, hrs⟩ := Conjunction.text_append_inj hr.toEndsConjunction
        hs.toEndsConjunction h
      exact ⟨rfl, hrs⟩
  | .one c, .or c' rest, r, s, hr, hs, h => by
      simp only [Disjunction.text, List.append_assoc] at h
      obtain ⟨-, rfl⟩ := Conjunction.text_append_inj hr.toEndsConjunction
        (endsConjunction_orText _) h
      exact absurd (List.prefix_append _ _) hr.not_or
  | .or c rest, .one c', r, s, hr, hs, h => by
      simp only [Disjunction.text, List.append_assoc] at h
      obtain ⟨-, rfl⟩ := Conjunction.text_append_inj (endsConjunction_orText _)
        hs.toEndsConjunction h
      exact absurd (List.prefix_append _ _) hs.not_or
  | .or c rest, .or c' rest', r, s, hr, hs, h => by
      simp only [Disjunction.text, List.append_assoc] at h
      obtain ⟨rfl, hrest⟩ := Conjunction.text_append_inj (endsConjunction_orText _)
        (endsConjunction_orText _) h
      obtain ⟨rfl, hrs⟩ := Disjunction.text_append_inj hr hs (List.append_cancel_left hrest)
      exact ⟨rfl, hrs⟩

end

theorem Disjunction.text_injective {d e : Disjunction} (h : d.text = e.text) : d = e :=
  (Disjunction.text_append_inj endsDisjunction_nil endsDisjunction_nil
    (congrArg (· ++ []) h)).1

end RecordFilter.Sql
