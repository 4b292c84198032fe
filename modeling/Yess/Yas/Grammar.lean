import Yess.Yas.Lexer

/-!
# Written lines

How tokens are spelled and put on a line, and that the lexer reads a line that is
written so as these tokens.
-/

namespace Yess.Yas

open Lib.CString Lib.LongestMatch

/-! ## Spelling -/

/-- The spellings of a token. -/
inductive Spells : Text → Token → Prop where
  | instr {name : Text} (listed : name ∈ instrNames) : Spells name (.instr name)
  | reg {name : Text} (listed : name ∈ regs) : Spells name (.reg name)
  | ident {first : Byte} {rest : Text} (letter : isLetter first = true)
      (word : ∀ c ∈ rest, isWord c = true) (free : first :: rest ∉ instrNames) :
      Spells (first :: rest) (.ident (first :: rest))
  | num {digits : Text} (nonempty : digits ≠ []) (all : ∀ c ∈ digits, isDigit c = true) :
      Spells digits (.num (atoi digits))
  | negative {digits : Text} (nonempty : digits ≠ []) (all : ∀ c ∈ digits, isDigit c = true) :
      Spells (ch '-' :: digits) (.num (atoi (ch '-' :: digits)))
  | hex {x : Byte} {digits : Text} (isX : x = ch 'x' ∨ x = ch 'X') (nonempty : digits ≠ [])
      (all : ∀ c ∈ digits, isxdigit c = true) :
      Spells (ch '0' :: x :: digits) (.num (atoh (ch '0' :: x :: digits)))
  | punct {c : Byte} (listed : isPunct c = true) : Spells [c] (.punct c)

/-- The token must not be followed by a character of a word. -/
def Token.isOpen : Token → Bool
  | .reg _ | .punct _ => false
  | _ => true

/-- The tokens of a line, with blanks and dollar signs between them, and maybe a comment. -/
inductive Written : List Token → Text → Prop where
  | done : Written [] []
  | comment {mark text : Text} (isMark : mark ∈ [ascii "#", ascii "//", ascii "/*"]) :
      Written [] (mark ++ text)
  | blank {ts : List Token} {text : Text} {c : Byte} (isBlank : isblank c = true ∨ c = ch '$')
      (written : Written ts text) : Written ts (c :: text)
  | token {t : Token} {ts : List Token} {word text : Text} (spelled : Spells word t)
      (apart : t.isOpen = true → Stops isWord text) (written : Written ts text) :
      Written (t :: ts) (word ++ text)

def spaced (words : List Text) : Text := words.flatMap fun word => word ++ [space]

theorem written_spaced {spelled : List (Text × Token)}
    (all : ∀ pair ∈ spelled, Spells pair.1 pair.2) :
    Written (spelled.map Prod.snd) (spaced (spelled.map Prod.fst)) := by
  induction spelled with
  | nil => exact .done
  | cons pair rest ih =>
      have others := ih fun pair member => all pair (List.mem_cons_of_mem _ member)
      have line : spaced ((pair :: rest).map Prod.fst) =
          pair.1 ++ space :: spaced (rest.map Prod.fst) := (List.append_cons _ _ _).symm
      rw [line]
      exact .token (all pair List.mem_cons_self) (fun _ => stops_cons (by decide))
        (.blank (Or.inl rfl) others)

/-! ## Up to the newline -/

theorem toNewline_append {p : Byte → Bool} (noNewline : p newline = false) {text : Text}
    (all : ∀ c ∈ text, p c = true) (rest : Text) :
    toNewline p (text ++ newline :: rest) = some (text.length + 1) := by
  have noReturns : (newline :: rest).takeWhile (· = carriageReturn) = [] :=
    List.takeWhile_cons_of_neg (by decide)
  have atEnd : (text ++ newline :: rest)[text.length + 0]? = some newline := by
    rw [List.getElem?_append_right (Nat.le_add_right _ _), Nat.add_sub_cancel_left]
    rfl
  unfold toNewline
  dsimp only
  rw [takeWhile_append_stops all (stops_cons noNewline), List.drop_left, noReturns]
  exact if_pos atEnd

theorem toNewline_append_none {p : Byte → Bool} {text : Text} (all : ∀ c ∈ text, p c = true)
    {c : Byte} (other : p c = false) (inside : isChar c = true) (rest : Text) :
    toNewline p (text ++ c :: rest) = none := by
  obtain ⟨noNewline, noReturn⟩ := (Bool.and_eq_true _ _).mp inside
  have noReturns : (c :: rest).takeWhile (· = carriageReturn) = [] :=
    List.takeWhile_cons_of_neg fun isReturn =>
      of_decide_eq_true noReturn (of_decide_eq_true isReturn)
  have notEnd : ¬ (text ++ c :: rest)[text.length + 0]? = some newline := by
    rw [List.getElem?_append_right (Nat.le_add_right _ _), Nat.add_sub_cancel_left]
    exact fun isNewline => of_decide_eq_true noNewline (Option.some.inj isNewline)
  unfold toNewline
  dsimp only
  rw [takeWhile_append_stops all (stops_cons other), List.drop_left, noReturns]
  exact (if_neg notEnd).trans (if_pos rfl)

/-! ## First characters -/

/-- The characters that a match of the pattern can start with. -/
def Pattern.starts (c : Byte) : Pattern → Bool
  | hash => c = ch '#'
  | slashes | slashStar => c = ch '/'
  | line => isblank c || !isChar c
  | blanks => isblank c
  | dollars => c = ch '$'
  | instr => isLetter c || c = ch '.'
  | reg => c = ch '%'
  | num => isDigit c || c = ch '-'
  | hex => c = ch '0'
  | punct => isPunct c
  | ident => isLetter c
  | other => isChar c

theorem comment_cons_none {first c : Byte} {mark rest : Text} (other : c ≠ first) :
    comment (first :: mark) (c :: rest) = none := by
  unfold comment
  rw [List.isPrefixOf, beq_eq_false_iff_ne.mpr other.symm, Bool.false_and]
  rfl

theorem Pattern.longest_none {pattern : Pattern} {c : Byte} (rest : Text)
    (other : pattern.starts c = false) : pattern.longest (c :: rest) = none := by
  cases pattern with
  | hash => exact comment_cons_none (of_decide_eq_false other)
  | slashes => exact comment_cons_none (of_decide_eq_false other)
  | slashStar => exact comment_cons_none (of_decide_eq_false other)
  | line =>
      obtain ⟨noBlank, inside⟩ := Bool.or_eq_false_iff.mp other
      exact @toNewline_append_none isblank [] (fun _ member => absurd member List.not_mem_nil) c
        noBlank (Bool.not_eq_eq_eq_not.mp inside) rest
  | blanks => exact many_cons_none other
  | dollars => exact many_cons_none other
  | instr => exact @oneOf_cons_none _ _ _ (Pattern.instr.starts ·) (by decide +kernel) c other rest
  | reg => exact @oneOf_cons_none _ _ _ (Pattern.reg.starts ·) (by decide +kernel) c other rest
  | num =>
      obtain ⟨noDigit, noMinus⟩ := Bool.or_eq_false_iff.mp other
      exact (if_neg (of_decide_eq_false noMinus)).trans (many_cons_none noDigit)
  | hex =>
      cases rest with
      | nil => rfl
      | cons x rest => exact if_neg fun both => of_decide_eq_false other both.1
  | punct => exact if_neg (Bool.eq_false_iff.mp other)
  | ident => exact if_neg (Bool.eq_false_iff.mp other)
  | other => exact if_neg (Bool.eq_false_iff.mp other)

theorem best_starts {c : Byte} {candidates : List Pattern}
    (table : patterns.filter (Pattern.starts c) = candidates) (rest : Text) :
    best Pattern.longest patterns (c :: rest) = best Pattern.longest candidates (c :: rest) := by
  rw [← table]
  exact best_filter _ fun pattern _ other => Pattern.longest_none rest other

/-! ## Tokens -/

def wordName : Text → Bool
  | [] => false
  | c :: tail => (isLetter c || c = ch '.') && tail.all isWord

theorem wordName_instrNames : ∀ name ∈ instrNames, wordName name = true := by
  decide +kernel

theorem instrNames_word {name : Text} (listed : name ∈ instrNames) :
    ∃ c tail, name = c :: tail ∧ (isLetter c || c = ch '.') = true ∧
      ∀ d ∈ tail, isWord d = true := by
  have isName := wordName_instrNames name listed
  cases name with
  | nil => cases isName
  | cons c tail =>
      obtain ⟨start, word⟩ := (Bool.and_eq_true _ _).mp isName
      exact ⟨c, tail, rfl, start, List.all_eq_true.mp word⟩

/-- No name of an instruction goes past the end of a word. -/
theorem instrNames_length_le {name rest : Text} {c : Byte} {tail : Text}
    (listed : name ∈ instrNames) (isPrefix : name <+: c :: tail ++ rest)
    (apart : Stops isWord rest) :
    name.length ≤ (c :: tail).length := by
  obtain ⟨head, others, rfl, -, word⟩ := instrNames_word listed
  obtain ⟨-, tailPrefix⟩ := List.cons_prefix_cons.mp isPrefix
  exact Nat.succ_le_succ (length_le_of_stops tailPrefix word apart)

theorem ident_append {c : Byte} {tail rest : Text} (letter : isLetter c = true)
    (word : ∀ d ∈ tail, isWord d = true) (apart : Stops isWord rest) :
    Yas.ident (c :: tail ++ rest) = some (c :: tail).length := by
  change (if isLetter c then some (((tail ++ rest).takeWhile isWord).length + 1) else none) = _
  rw [if_pos letter, takeWhile_append_stops word apart]
  rfl

theorem number_append {digits rest : Text} (nonempty : digits ≠ [])
    (all : ∀ c ∈ digits, isDigit c = true) (apart : Stops isDigit rest) :
    number (digits ++ rest) = some digits.length := by
  rw [← many_append nonempty all apart]
  cases digits with
  | nil => exact absurd rfl nonempty
  | cons c tail =>
      have noMinus : c ≠ ch '-' := by
        rintro rfl
        exact absurd (all _ List.mem_cons_self) (by decide)
      exact if_neg noMinus

theorem stops_digit {rest : Text} (apart : Stops isWord rest) : Stops isDigit rest := by
  intro c isFirst
  have word := apart c isFirst
  unfold isWord at word
  exact (Bool.or_eq_false_iff.mp (Bool.or_eq_false_iff.mp word).1).2

theorem isWord_of_isxdigit : ∀ c : Byte, isxdigit c = true → isWord c = true := by
  decide +kernel

theorem one_le {p : Byte → Bool} {text : Text} {n m : Nat} (positive : 0 < n)
    (matched : one p text = some m) : m ≤ n := by
  cases text with
  | nil => cases matched
  | cons c rest =>
      change (if p c then some 1 else none) = some m at matched
      by_cases kind : p c = true
      · rw [if_pos kind] at matched
        cases matched
        exact positive
      · rw [if_neg kind] at matched
        cases matched

theorem other_le {text : Text} {n m : Nat} (positive : 0 < n)
    (matched : m ∈ Pattern.other.longest text) : m ≤ n := one_le positive matched

/-- A zero that starts a row of digits does not start a hexadecimal number. -/
theorem hexNumber_zero_none {digits rest : Text} (all : ∀ c ∈ digits, isDigit c = true)
    (apart : Stops isWord rest) : hexNumber (ch '0' :: (digits ++ rest)) = none := by
  have noX {x : Byte} (more : Text) (notX : isDigit x = true ∨ isWord x = false) :
      hexNumber (ch '0' :: x :: more) = none := by
    refine if_neg fun both => ?_
    rcases both.2 with rfl | rfl
    · exact absurd notX (by decide)
    · exact absurd notX (by decide)
  cases digits with
  | nil =>
      cases rest with
      | nil => rfl
      | cons x more => exact noX more (Or.inr (apart x rfl))
  | cons d more => exact noX (more ++ rest) (Or.inl (all d List.mem_cons_self))

theorem best_alone {c : Byte} {rest : Text} {pattern : Pattern} {n : Nat}
    (table : patterns.filter (Pattern.starts c) = [pattern, .other])
    (own : pattern.longest (c :: rest) = some n) (positive : 0 < n) :
    best Pattern.longest patterns (c :: rest) = some (n, pattern) := by
  rw [best_starts table]
  refine @best_append _ _ _ _ [] _ _ _ own (fun _ member => absurd member List.not_mem_nil) ?_
  intro later member m matched
  rw [List.mem_singleton.mp member] at matched
  exact other_le positive matched

theorem Spells.nonempty {word : Text} {t : Token} (spelled : Spells word t) : word ≠ [] := by
  cases spelled with
  | instr listed =>
      obtain ⟨c, tail, rfl, -⟩ := instrNames_word listed
      exact List.cons_ne_nil _ _
  | reg listed =>
      rintro rfl
      exact absurd listed (by decide +kernel)
  | ident _ _ _ => exact List.cons_ne_nil _ _
  | num nonempty _ => exact nonempty
  | negative _ _ => exact List.cons_ne_nil _ _
  | hex _ _ _ => exact List.cons_ne_nil _ _
  | punct _ => exact List.cons_ne_nil _ _

/-! ## The pattern of a token -/

section

variable {rest : Text}

theorem best_instr {name : Text} (listed : name ∈ instrNames) (apart : Stops isWord rest) :
    best Pattern.longest patterns (name ++ rest) = some (name.length, .instr) := by
  obtain ⟨c, tail, rfl, start, word⟩ := instrNames_word listed
  have own : Pattern.instr.longest (c :: (tail ++ rest)) = some (c :: tail).length := by
    refine oneOf_eq_some_iff.mpr ⟨⟨_, listed, List.prefix_append _ _, rfl⟩, ?_⟩
    exact fun name listed isPrefix => instrNames_length_le listed isPrefix apart
  cases letter : isLetter c with
  | true =>
      have table : ∀ c : Byte, isLetter c = true →
          patterns.filter (Pattern.starts c) = [] ++ .instr :: [.ident, .other] := by
        decide +kernel
      rw [List.cons_append, best_starts (table c letter)]
      refine best_append own (fun _ member => absurd member List.not_mem_nil) ?_
      intro later member m matched
      rcases List.mem_pair.mp member with rfl | rfl
      · have same := matched.symm.trans (ident_append letter word apart)
        exact (Option.some.inj same).le
      · exact other_le (Nat.succ_pos _) matched
  | false =>
      have table : ∀ c : Byte, (isLetter c || c = ch '.') = true → isLetter c = false →
          patterns.filter (Pattern.starts c) = [.instr, .other] := by
        decide +kernel
      exact best_alone (table c start letter) own (Nat.succ_pos _)

theorem best_reg {name : Text} (listed : name ∈ regs) :
    best Pattern.longest patterns (name ++ rest) = some (name.length, .reg) := by
  have table : ∀ name ∈ regs, name.length = 4 ∧ name.head? = some (ch '%') := by decide +kernel
  obtain ⟨length, isFirst⟩ := table name listed
  have own : Pattern.reg.longest (name ++ rest) = some name.length := by
    refine oneOf_eq_some_iff.mpr ⟨⟨name, listed, List.prefix_append _ _, rfl⟩, ?_⟩
    exact fun other isReg _ => by rw [(table other isReg).1, length]
  cases name with
  | nil => cases isFirst
  | cons c tail =>
      cases isFirst
      exact best_alone (by decide) own (Nat.succ_pos _)

/-- The name of an instruction that starts an identifier is shorter. -/
theorem best_ident {c : Byte} {tail : Text} (letter : isLetter c = true)
    (word : ∀ d ∈ tail, isWord d = true) (free : c :: tail ∉ instrNames)
    (apart : Stops isWord rest) :
    best Pattern.longest patterns (c :: tail ++ rest) = some ((c :: tail).length, .ident) := by
  have table : ∀ c : Byte, isLetter c = true →
      patterns.filter (Pattern.starts c) = [.instr] ++ .ident :: [.other] := by
    decide +kernel
  rw [List.cons_append, best_starts (table c letter)]
  refine best_append (ident_append letter word apart) ?_ ?_
  · intro earlier member m matched
    rw [List.mem_singleton.mp member] at matched
    obtain ⟨⟨name, listed, isPrefix, length⟩, -⟩ := oneOf_eq_some_iff.mp matched
    have le := instrNames_length_le listed isPrefix apart
    rw [← length]
    refine Nat.lt_of_le_of_ne le fun same => free ?_
    have whole := List.prefix_of_prefix_length_le isPrefix (List.prefix_append (c :: tail) rest) le
    rwa [← whole.eq_of_length same]
  · intro later member m matched
    rw [List.mem_singleton.mp member] at matched
    exact other_le (Nat.succ_pos _) matched

/-- A row of digits; the pattern of hexadecimal numbers is in question behind a zero. -/
theorem best_num {digits : Text} (nonempty : digits ≠ []) (all : ∀ c ∈ digits, isDigit c = true)
    (apart : Stops isWord rest) :
    best Pattern.longest patterns (digits ++ rest) = some (digits.length, .num) := by
  have own := number_append nonempty all (stops_digit apart)
  cases digits with
  | nil => exact absurd rfl nonempty
  | cons c tail =>
      obtain ⟨digit, tailDigits⟩ := List.forall_mem_cons.mp all
      by_cases zero : c = ch '0'
      · have table : patterns.filter (Pattern.starts (ch '0')) = [] ++ .num :: [.hex, .other] := by
          decide +kernel
        subst zero
        rw [List.cons_append, best_starts table]
        refine best_append own (fun _ member => absurd member List.not_mem_nil) ?_
        intro later member m matched
        rcases List.mem_pair.mp member with rfl | rfl
        · cases (hexNumber_zero_none tailDigits apart).symm.trans matched
        · exact other_le (Nat.succ_pos _) matched
      · have table : ∀ c : Byte, isDigit c = true → c ≠ ch '0' →
            patterns.filter (Pattern.starts c) = [.num, .other] := by
          decide +kernel
        exact best_alone (table c digit zero) own (Nat.succ_pos _)

theorem best_negative {digits : Text} (nonempty : digits ≠ [])
    (all : ∀ c ∈ digits, isDigit c = true) (apart : Stops isWord rest) :
    best Pattern.longest patterns (ch '-' :: digits ++ rest) =
      some ((ch '-' :: digits).length, .num) := by
  have own : number (ch '-' :: digits ++ rest) = some (ch '-' :: digits).length := by
    change (many isDigit (digits ++ rest)).map (· + 1) = _
    rw [many_append nonempty all (stops_digit apart)]
    rfl
  exact best_alone (by decide) own (Nat.succ_pos _)

theorem stops_isxdigit (apart : Stops isWord rest) : Stops isxdigit rest := by
  intro c isFirst
  by_contra digit
  have word := isWord_of_isxdigit c (Bool.not_eq_false _ ▸ digit)
  rw [apart c isFirst] at word
  exact Bool.false_ne_true word

/-- A hexadecimal number; as a row of digits it ends before the `x`. -/
theorem best_hex {x : Byte} {digits : Text} (isX : x = ch 'x' ∨ x = ch 'X')
    (nonempty : digits ≠ []) (all : ∀ c ∈ digits, isxdigit c = true)
    (apart : Stops isWord rest) :
    best Pattern.longest patterns (ch '0' :: x :: digits ++ rest) =
      some ((ch '0' :: x :: digits).length, .hex) := by
  have own : hexNumber (ch '0' :: x :: digits ++ rest) =
      some (ch '0' :: x :: digits).length := by
    change (if _ ∧ _ then (many isxdigit (digits ++ rest)).map (· + 2) else none) = _
    rw [if_pos ⟨rfl, isX⟩, many_append nonempty all (stops_isxdigit apart)]
    rfl
  have zero : number (ch '0' :: x :: digits ++ rest) = some 1 := by
    refine @number_append [ch '0'] (x :: digits ++ rest) (List.cons_ne_nil _ _) (by decide) ?_
    refine stops_cons ?_
    rcases isX with rfl | rfl
    · decide
    · decide
  have table : patterns.filter (Pattern.starts (ch '0')) = [.num] ++ .hex :: [.other] := by
    decide +kernel
  rw [List.cons_append, best_starts table]
  refine best_append own ?_ ?_
  · intro earlier member m matched
    rw [List.mem_singleton.mp member] at matched
    rw [← Option.some.inj (zero.symm.trans matched)]
    exact Nat.succ_lt_succ (Nat.succ_pos _)
  · intro later member m matched
    rw [List.mem_singleton.mp member] at matched
    exact other_le (Nat.succ_pos _) matched

theorem best_punct {c : Byte} (listed : isPunct c = true) :
    best Pattern.longest patterns ([c] ++ rest) = some ([c].length, .punct) := by
  have table : ∀ c : Byte, isPunct c = true →
      patterns.filter (Pattern.starts c) = [.punct, .other] := by
    decide +kernel
  exact best_alone (table c listed) (if_pos listed) Nat.one_pos

/-- The lexer finds the token that is spelled. -/
theorem best_spelled {word : Text} {t : Token} (spelled : Spells word t)
    (apart : t.isOpen = true → Stops isWord rest) :
    ∃ pattern, best Pattern.longest patterns (word ++ rest) = some (word.length, pattern) ∧
      pattern ≠ .other ∧ pattern.calls word = [.addToken t] := by
  cases spelled with
  | instr listed => exact ⟨.instr, best_instr listed (apart rfl), by decide, rfl⟩
  | reg listed => exact ⟨.reg, best_reg listed, by decide, rfl⟩
  | ident letter inWord free =>
      exact ⟨.ident, best_ident letter inWord free (apart rfl), by decide, rfl⟩
  | num nonempty all => exact ⟨.num, best_num nonempty all (apart rfl), by decide, rfl⟩
  | negative nonempty all => exact ⟨.num, best_negative nonempty all (apart rfl), by decide, rfl⟩
  | hex isX nonempty all => exact ⟨.hex, best_hex isX nonempty all (apart rfl), by decide, rfl⟩
  | punct listed => exact ⟨.punct, best_punct listed, by decide, rfl⟩

end

end Yess.Yas
