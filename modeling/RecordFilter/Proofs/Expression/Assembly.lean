import RecordFilter.Proofs.Expression.Pieces

/-!
Texts put together from others. Behind a text in which parentheses and quotes pair up a scan stands
as it does at the beginning, so that a connective between two such texts splits them, and
parentheses around one keep it whole.
-/

namespace RecordFilter.Expression

open Cursor

variable {k : Cursor} {held s t : List Char} {ts us : List Token} {l : Connective}

theorem splitBalanced_eq_ok_iff : splitBalanced s = .ok ts ↔ imbalance s = none ∧ split s = ts := by
  rw [splitBalanced]
  cases imbalance s <;> simp

/-- Behind a connective a text begins anew. -/
theorem imbalance_append_symbol (hs : imbalance s = none) (ht : imbalance t = none) :
    imbalance (s ++ l.symbol :: t) = none := by
  have hplace := outermost_after_of_balanced hs
  have hbehind : imbalanceFrom ⟨none, some l.symbol, 0⟩ t = imbalance t :=
    imbalanceFrom_congr rfl rfl (opensQuotation_symbol l)
  rw [imbalance, imbalanceFrom_append hs, imbalanceFrom_cons_eq_none_iff, mark_symbol hplace.quote,
    advance_symbol hplace.quote, hplace.depth, hbehind]
  exact ⟨by simp, ht⟩

/-- What follows a connective on the outermost level has no part in the tokens before it. -/
theorem splitFrom_append_symbol (h : k.imbalanceFrom s = none) :
    splitFrom k held (s ++ l.symbol :: t) =
      splitFrom k held s ++ .link l :: splitFrom ⟨none, some l.symbol, 0⟩ [] t := by
  induction s generalizing k held with
  | nil => exact splitFrom_symbol (imbalanceAtEnd_eq_none_iff.mp h) l
  | cons c s ih =>
      have hrest := (imbalanceFrom_cons_eq_none_iff.mp h).2
      simp only [List.cons_append, splitFrom, ih hrest]
      split <;> simp

theorem split_append_symbol (h : imbalance s = none) :
    split (s ++ l.symbol :: t) = split s ++ .link l :: split t := by
  have hbehind : splitFrom ⟨none, some l.symbol, 0⟩ [] t = split t :=
    splitFrom_congr rfl rfl (opensQuotation_symbol l)
  rw [split, splitFrom_append_symbol h, hbehind]
  rfl

theorem split_parenthesised (h : imbalance s = none) : split ('(' :: s ++ [')']) = [.group s] := by
  rw [split, List.cons_append, splitFrom_group outermost_start h]
  rfl

theorem splitBalanced_append_symbol (hs : splitBalanced s = .ok ts) (ht : splitBalanced t = .ok us) :
    splitBalanced (s ++ l.symbol :: t) = .ok (ts ++ .link l :: us) := by
  rw [splitBalanced_eq_ok_iff] at hs ht ⊢
  obtain ⟨hs, rfl⟩ := hs
  obtain ⟨ht, rfl⟩ := ht
  exact ⟨imbalance_append_symbol hs ht, split_append_symbol hs⟩

theorem splitBalanced_parenthesised (hs : splitBalanced s = .ok ts) :
    splitBalanced ('(' :: s ++ [')']) = .ok [.group s] := by
  rw [splitBalanced_eq_ok_iff] at hs ⊢
  exact ⟨(balanced_parenthesised hs.1).imbalance_eq_none, split_parenthesised hs.1⟩

/-- A way to put a text together: from two with a connective between them, or from one in
parentheses. -/
inductive Assembly where
  | text (s : List Char)
  | joined (l : Connective) (left right : Assembly)
  | grouped (inner : Assembly)

namespace Assembly

def chars : Assembly → List Char
  | text s => s
  | joined l left right => left.chars ++ l.symbol :: right.chars
  | grouped inner => '(' :: inner.chars ++ [')']

/-- The texts that it is put together from. -/
def parts : Assembly → List (List Char)
  | text s => [s]
  | joined _ left right => left.parts ++ right.parts
  | grouped inner => inner.parts

/-- The tokens of the outermost level, split at no connective but its own and those of its parts. -/
def tokens : Assembly → List Token
  | text s => split s
  | joined l left right => left.tokens ++ .link l :: right.tokens
  | grouped inner => [.group inner.chars]

/-- The same at every depth. -/
def pieces : Assembly → List Piece
  | text s => Expression.pieces s
  | joined l left right => left.pieces ++ .link l :: right.pieces
  | grouped inner => [.group inner.pieces]

theorem splitBalanced_chars {a : Assembly}
    (h : ∀ s ∈ a.parts, ∃ ts, splitBalanced s = .ok ts) : splitBalanced a.chars = .ok a.tokens := by
  induction a with
  | text s =>
      obtain ⟨ts, hs⟩ := h s List.mem_cons_self
      exact splitBalanced_eq_ok_iff.mpr ⟨(splitBalanced_eq_ok_iff.mp hs).1, rfl⟩
  | joined l left right ihLeft ihRight =>
      rw [parts, List.forall_mem_append] at h
      exact splitBalanced_append_symbol (ihLeft h.1) (ihRight h.2)
  | grouped inner ih => exact splitBalanced_parenthesised (ih h)

theorem pieces_chars {a : Assembly} (h : ∀ s ∈ a.parts, ∃ ts, splitBalanced s = .ok ts) :
    Expression.pieces a.chars = a.pieces := by
  induction a with
  | text s => rfl
  | joined l left right ihLeft ihRight =>
      rw [parts, List.forall_mem_append] at h
      have hleft := (splitBalanced_eq_ok_iff.mp (splitBalanced_chars h.1)).1
      rw [chars, pieces_eq, split_append_symbol hleft, List.map_append, List.map_cons, ← pieces_eq,
        ← pieces_eq, ihLeft h.1, ihRight h.2]
      rfl
  | grouped inner ih =>
      have hinner := (splitBalanced_eq_ok_iff.mp (splitBalanced_chars (a := inner) h)).1
      rw [chars, pieces_eq, split_parenthesised hinner, List.map_singleton, Token.piece, ih h]
      rfl

end Assembly

/-- Two texts in which parentheses and quotes pair up are split at a connective between them and
nowhere else than alone, and one in parentheses is a single group. So a text put together from such
texts is split, on every level, at the connectives that it was put together with and at those of its
parts. -/
theorem splitBalanced_composes :
    (∀ (l : Connective) (s t : List Char) (ts us : List Token), splitBalanced s = .ok ts →
      splitBalanced t = .ok us → splitBalanced (s ++ l.symbol :: t) = .ok (ts ++ .link l :: us)) ∧
    (∀ (s : List Char) (ts : List Token), splitBalanced s = .ok ts →
      splitBalanced ('(' :: s ++ [')']) = .ok [.group s] ∧
        (Token.group s).chars = '(' :: s ++ [')']) ∧
    ∀ a : Assembly, (∀ s ∈ a.parts, ∃ ts, splitBalanced s = .ok ts) →
      splitBalanced a.chars = .ok a.tokens ∧ pieces a.chars = a.pieces := by
  refine ⟨?_, ?_, ?_⟩
  · intro l s t ts us hs ht
    exact splitBalanced_append_symbol hs ht
  · intro s ts hs
    exact ⟨splitBalanced_parenthesised hs, rfl⟩
  · intro a ha
    exact ⟨a.splitBalanced_chars ha, a.pieces_chars ha⟩

theorem splitBalanced_composes_quoted :
    let s := "a = 'x & (' ".toList
    let t := "b ~ don't | (c = 1)".toList
    let first : Token := .condition "a = 'x & ('".toList
    let second := [.condition "b ~ don't".toList, .link .or, .group "c = 1".toList]
    let a : Assembly := .joined .or (.grouped (.joined .and (.text s) (.text t))) (.text s)
    (splitBalanced s = .ok [first] ∧ splitBalanced t = .ok second) ∧
      splitBalanced (s ++ '&' :: t) = .ok (first :: .link .and :: second) ∧
      splitBalanced ('(' :: t ++ [')']) = .ok [.group t] ∧
      splitBalanced a.chars = .ok [.group (s ++ '&' :: t), .link .or, first] ∧
      pieces a.chars = .group (pieces s ++ .link .and :: pieces t) :: .link .or :: pieces s := by
  intro s t first second a
  obtain ⟨hlink, hgroup, hassembly⟩ := splitBalanced_composes
  have hs : splitBalanced s = .ok [first] := by decide
  have ht : splitBalanced t = .ok second := by decide
  have hparts : ∀ s ∈ a.parts, ∃ ts, splitBalanced s = .ok ts := by
    change ∀ r ∈ [s, t, s], ∃ ts, splitBalanced r = .ok ts
    simp only [List.forall_mem_cons]
    exact ⟨⟨_, hs⟩, ⟨_, ht⟩, ⟨_, hs⟩, nofun⟩
  obtain ⟨hsplit, hpieces⟩ := hassembly a hparts
  exact ⟨⟨hs, ht⟩, hlink .and s t _ _ hs ht, (hgroup t _ ht).1, hsplit, hpieces⟩

end RecordFilter.Expression
