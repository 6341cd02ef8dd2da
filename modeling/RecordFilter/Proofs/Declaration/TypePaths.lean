import RecordFilter.Declaration.TypeText

/-!
Written paths. A type that is written as names joined by double colons, the last of them with one
such type in angle brackets or without, is read as its last name with that argument, at every depth.
-/

namespace RecordFilter.Declaration

/-- A character that is part of a word wherever it stands. -/
def isWordChar (c : Char) : Bool :=
  !(isBetweenTokens c || isMark c || c == '"' || c == '\'')

/-- A name of a path. -/
structure PathName where
  chars : List Char
  ne_nil : chars ≠ []
  word : ∀ c ∈ chars, isWordChar c = true
  form : isFormWord (String.ofList chars) = false

/-- A path as written, by its names and the argument of the last one. -/
inductive PathText where
  | plain (lead : List PathName) (last : PathName)
  | applied (lead : List PathName) (last : PathName) (first : PathText)

namespace PathName

def name (w : PathName) : String :=
  String.ofList w.chars

def leadChars (lead : List PathName) : List Char :=
  lead.flatMap fun w => w.chars ++ [':', ':']

def leadTokens (lead : List PathName) : List TypeToken :=
  lead.flatMap fun w => [.word w.name, .separator]

end PathName

namespace PathText

open PathName (leadChars leadTokens)

def chars : PathText → List Char
  | plain lead last => leadChars lead ++ last.chars
  | applied lead last first => leadChars lead ++ last.chars ++ '<' :: first.chars ++ ['>']

def tokens : PathText → List TypeToken
  | plain lead last => leadTokens lead ++ [.word last.name]
  | applied lead last first =>
      leadTokens lead ++ .word last.name :: .mark '<' :: (first.tokens ++ [.mark '>'])

/-- What the path means: of its names only the last one counts. -/
def expr : PathText → TypeExpr
  | plain _ last => .path last.name
  | applied _ last first => .applied last.name first.expr

end PathText

section

variable {c : Char} {w s rest held : List Char}

theorem tokensFrom_wordChar (hc : isWordChar c = true) :
    tokensFrom (.word held) (c :: s) = tokensFrom (.word (c :: held)) s := by
  have hword : isBetweenTokens c = false ∧ isMark c = false ∧ c ≠ '"' ∧ c ≠ '\'' := by
    simpa [isWordChar, and_assoc] using hc
  obtain ⟨hbetween, hmark, hdouble, hsingle⟩ := hword
  have hother : ∀ d, isMark d = true → c ≠ d := by
    rintro d hd rfl
    cases hmark.symm.trans hd
  have hcolon := hother ':' (by decide)
  have hminus := hother '-' (by decide)
  have hslash := hother '/' (by decide)
  rw [tokensFrom.eq_def]
  split <;> simp_all

/-- Whatever word is held, it ends where the text begins. -/
def EndsWord (s : List Char) : Prop :=
  ∀ held, tokensFrom (.word held) s = wordToken held ++ tokensFrom .start s

theorem endsWord_nil : EndsWord [] := by
  intro held
  exact (List.append_nil _).symm

theorem endsWord_separator : EndsWord (':' :: ':' :: s) := by
  intro held
  rfl

theorem endsWord_opening : EndsWord ('<' :: s) := by
  intro held
  rfl

theorem endsWord_closing : EndsWord ('>' :: s) := by
  intro held
  rfl

theorem tokensFrom_word (hw : ∀ c ∈ w, isWordChar c = true) (hrest : EndsWord rest) :
    tokensFrom (.word held) (w ++ rest) =
      wordToken (w.reverse ++ held) ++ tokensFrom .start rest := by
  induction w generalizing held with
  | nil => exact hrest held
  | cons c w ih =>
      rw [List.forall_mem_cons] at hw
      rw [List.cons_append, tokensFrom_wordChar hw.1, ih hw.2, List.reverse_cons, List.append_assoc,
        List.singleton_append]

theorem PathName.tokensFrom_append (w : PathName) (hrest : EndsWord rest) :
    tokensFrom .start (w.chars ++ rest) = .word w.name :: tokensFrom .start rest := by
  rw [TypeScan.start, tokensFrom_word w.word hrest, wordToken, List.append_nil,
    List.isEmpty_reverse, if_neg (by simpa using w.ne_nil), List.reverse_reverse]
  rfl

theorem PathName.tokensFrom_lead (lead : List PathName) :
    tokensFrom .start (leadChars lead ++ rest) = leadTokens lead ++ tokensFrom .start rest := by
  induction lead with
  | nil => rfl
  | cons w lead ih =>
      have happend : leadChars (w :: lead) ++ rest =
          w.chars ++ ':' :: ':' :: (leadChars lead ++ rest) := by
        simp [leadChars]
      rw [happend, w.tokensFrom_append endsWord_separator]
      change _ :: .separator :: tokensFrom .start (leadChars lead ++ rest) = _
      rw [ih]
      rfl

theorem PathText.tokensFrom_append (p : PathText) (hrest : EndsWord rest) :
    tokensFrom .start (p.chars ++ rest) = p.tokens ++ tokensFrom .start rest := by
  induction p generalizing rest with
  | plain lead last =>
      rw [chars, tokens, List.append_assoc, PathName.tokensFrom_lead, last.tokensFrom_append hrest,
        List.append_assoc]
      rfl
  | applied lead last first ih =>
      have hinner : tokensFrom .start (first.chars ++ '>' :: rest) =
          first.tokens ++ .mark '>' :: tokensFrom .start rest := ih endsWord_closing
      have happend : (applied lead last first).chars ++ rest =
          PathName.leadChars lead ++ (last.chars ++ '<' :: (first.chars ++ '>' :: rest)) := by
        simp [chars]
      rw [happend, PathName.tokensFrom_lead, last.tokensFrom_append endsWord_opening]
      change _ ++ _ :: .mark '<' :: tokensFrom .start (first.chars ++ '>' :: rest) = _
      rw [hinner]
      simp [tokens]

end

theorem PathText.typeTokens_chars (p : PathText) :
    typeTokens (String.ofList p.chars) = p.tokens := by
  have htokens := p.tokensFrom_append endsWord_nil
  rw [List.append_nil] at htokens
  rw [typeTokens, String.toList_ofList, htokens]
  exact List.append_nil _

section

variable {stop : TypeToken → Bool} {n m n' : Nesting} {t : TypeToken} {ts more : List TypeToken}

/-- A split does not stop in the tokens, and behind them it goes on at the second nesting. -/
def Passes (stop : TypeToken → Bool) (n : Nesting) (ts : List TypeToken) (n' : Nesting) : Prop :=
  ∀ rest, splitOutermost stop n (ts ++ rest) =
    Prod.map (ts ++ ·) id (splitOutermost stop n' rest)

theorem passes_nil : Passes stop n [] n := by
  intro rest
  rfl

theorem passes_singleton (h : (n.isOutermost && stop t) = false) :
    Passes stop n [t] (n.after t) := by
  intro rest
  rw [List.singleton_append, splitOutermost, h]
  rfl

theorem Passes.append (hts : Passes stop n ts m) (hmore : Passes stop m more n') :
    Passes stop n (ts ++ more) n' := by
  intro rest
  rw [List.append_assoc, hts, hmore, Prod.map_map]
  congr 1
  funext inside
  exact (List.append_assoc _ _ _).symm

/-- The tokens that may stand on the outermost level of a path do not stop the split. -/
structure SparesPaths (stop : TypeToken → Bool) : Prop where
  word : ∀ name, stop (.word name) = false
  separator : stop .separator = false
  opening : stop (.mark '<') = false

theorem sparesPaths_mark {c : Char} (hc : c ≠ '<') : SparesPaths (· == .mark c) where
  word _ := rfl
  separator := rfl
  opening := by simpa using hc.symm

theorem PathName.passes_lead (hstop : SparesPaths stop) (lead : List PathName) :
    Passes stop n (leadTokens lead) n := by
  induction lead with
  | nil => exact passes_nil
  | cons w lead ih =>
      have hword : Passes stop n [.word w.name] n :=
        passes_singleton (by rw [hstop.word, Bool.and_false])
      have hseparator : Passes stop n [.separator] n :=
        passes_singleton (by rw [hstop.separator, Bool.and_false])
      exact (hword.append hseparator).append ih

theorem PathText.passes (hstop : SparesPaths stop) (p : PathText) (angles : Nat) :
    Passes stop ⟨angles, 0⟩ p.tokens ⟨angles, 0⟩ := by
  induction p generalizing angles with
  | plain lead last =>
      exact (PathName.passes_lead hstop lead).append
        (passes_singleton (by rw [hstop.word, Bool.and_false]))
  | applied lead last first ih =>
      have hword : Passes stop ⟨angles, 0⟩ [.word last.name] ⟨angles, 0⟩ :=
        passes_singleton (by rw [hstop.word, Bool.and_false])
      have hopening : Passes stop ⟨angles, 0⟩ [.mark '<'] ⟨angles + 1, 0⟩ :=
        passes_singleton (by rw [hstop.opening, Bool.and_false])
      have hclosing : Passes stop ⟨angles + 1, 0⟩ [.mark '>'] ⟨angles, 0⟩ := passes_singleton rfl
      exact (PathName.passes_lead hstop lead).append
        (hword.append (hopening.append ((ih (angles + 1)).append hclosing)))

end

section

variable {name : String} {readFirst readNext : List TypeToken → TypeExpr} {rest : List TypeToken}

theorem PathText.tokens_ne_nil (p : PathText) : p.tokens ≠ [] := by
  cases p <;> simp [tokens]

theorem PathText.readArguments_tokens (p : PathText) :
    readArguments readFirst readNext name (p.tokens ++ [.mark '>']) =
      .applied name (readFirst p.tokens) := by
  have hclosed : splitOutermost (· == .mark '>') {} (p.tokens ++ [.mark '>']) = (p.tokens, []) := by
    rw [p.passes (sparesPaths_mark (by decide)) 0]
    exact congrArg (·, []) (List.append_nil _)
  have hfirst : splitOutermost (· == .mark ',') {} p.tokens = (p.tokens, []) := by
    have hpasses := p.passes (sparesPaths_mark (c := ',') (by decide)) 0 []
    rw [List.append_nil] at hpasses
    rw [hpasses]
    exact congrArg (·, []) (List.append_nil _)
  have hne : p.tokens.isEmpty = false := by
    simpa using p.tokens_ne_nil
  simp only [readArguments, hclosed, hne, hfirst]
  rfl

theorem PathName.exists_word_leadTokens (lead : List PathName) (name : String)
    (rest : List TypeToken) :
    ∃ first more, leadTokens lead ++ .word name :: rest = .word first :: more := by
  cases lead with
  | nil => exact ⟨name, rest, rfl⟩
  | cons w lead => exact ⟨w.name, _, rfl⟩

theorem PathName.readPath_lead (lead : List PathName) (fuel : Nat) :
    readPath (fuel + lead.length) .name (leadTokens lead ++ .word name :: rest) =
      readPath fuel .name (.word name :: rest) := by
  induction lead with
  | nil => rfl
  | cons w lead ih =>
      obtain ⟨first, more, hmore⟩ := exists_word_leadTokens lead name rest
      change readPath (fuel + lead.length + 1) .name
        (.word w.name :: .separator :: (leadTokens lead ++ .word name :: rest)) = _
      have hform : isFormWord w.name = false := w.form
      rw [hmore, readPath, hform]
      change readPath (fuel + lead.length) .name (.word first :: more) = _
      rw [← hmore, ih]

theorem PathName.length_leadTokens (lead : List PathName) :
    (leadTokens lead).length = 2 * lead.length := by
  simp [leadTokens, List.map_const', Nat.mul_comm]

/-- The beginning of a path and its names but the last take a step each. -/
theorem PathName.readPath_start (lead : List PathName) (last : PathName) (fuel : Nat) :
    readPath (fuel + 1 + lead.length + 1) .start (leadTokens lead ++ .word last.name :: rest) =
      readAfterName (readPath fuel .start) (readPath fuel .name) last.name rest := by
  obtain ⟨first, more, hmore⟩ := exists_word_leadTokens lead last.name rest
  have hform : isFormWord last.name = false := last.form
  rw [hmore]
  change readPath (fuel + 1 + lead.length) .name (.word first :: more) = _
  rw [← hmore, readPath_lead, readPath, hform]
  rfl

theorem PathText.readPath_tokens (p : PathText) {fuel : Nat} (h : 2 * p.tokens.length ≤ fuel) :
    readPath fuel .start p.tokens = p.expr := by
  induction p generalizing fuel with
  | plain lead last =>
      rw [tokens, List.length_append, PathName.length_leadTokens, List.length_singleton] at h
      obtain ⟨k, rfl⟩ : ∃ k, fuel = k + 1 + lead.length + 1 :=
        ⟨fuel - lead.length - 2, by omega⟩
      rw [tokens, PathName.readPath_start]
      rfl
  | applied lead last first ih =>
      have hlength : (applied lead last first).tokens.length =
          2 * lead.length + first.tokens.length + 3 := by
        simp [tokens, PathName.length_leadTokens]
        omega
      obtain ⟨k, rfl⟩ : ∃ k, fuel = k + 1 + lead.length + 1 :=
        ⟨fuel - lead.length - 2, by omega⟩
      rw [tokens, PathName.readPath_start, readAfterName, readArguments_tokens, ih (by omega)]
      rfl

/-- A written path is read as what it means. -/
theorem PathText.ofText_chars (p : PathText) :
    TypeExpr.ofText (String.ofList p.chars) = p.expr := by
  rw [TypeExpr.ofText, p.typeTokens_chars]
  exact p.readPath_tokens (Nat.le_add_right _ 2)

end

end RecordFilter.Declaration
