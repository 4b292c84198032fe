import Yess.Yas.Grammar

/-!
# Scanning lines

A written line makes the lexer keep the line, add its tokens and finish it.
-/

namespace Yess.Yas

open Lib.CString Lib.LongestMatch

/-! ## Matches end with the line -/

theorem takeWhile_le {p : Byte → Bool} (noNewline : p newline = false) (text rest : Text) :
    ((text ++ newline :: rest).takeWhile p).length ≤ text.length :=
  length_le_of_stops (List.takeWhile_prefix p) (fun _ => List.mem_takeWhile_imp)
    (stops_cons noNewline)

theorem many_le {p : Byte → Bool} (noNewline : p newline = false) {text rest : Text} {n : Nat}
    (matched : many p (text ++ newline :: rest) = some n) : n ≤ text.length := by
  have le := takeWhile_le noNewline text rest
  unfold many at matched
  dsimp only at matched
  by_cases empty : ((text ++ newline :: rest).takeWhile p).length = 0
  · rw [if_pos empty] at matched
    cases matched
  · rw [if_neg empty] at matched
    exact (Option.some.inj matched) ▸ le

theorem oneOf_le {words : List Text} (clean : ∀ word ∈ words, word.all isChar = true)
    {text rest : Text} {n : Nat} (matched : oneOf words (text ++ newline :: rest) = some n) :
    n ≤ text.length := by
  obtain ⟨⟨word, listed, isPrefix, length⟩, -⟩ := oneOf_eq_some_iff.mp matched
  rw [← length]
  exact @length_le_of_stops _ isChar _ _ _ isPrefix (List.all_eq_true.mp (clean word listed))
    (stops_cons (by decide))

theorem toNewline_le {p : Byte → Bool} (noNewline : p newline = false) {text rest : Text}
    (clean : ∀ c ∈ text, isChar c = true) {n : Nat}
    (matched : toNewline p (text ++ newline :: rest) = some n) : n ≤ text.length + 1 := by
  have front : ∀ c ∈ text.takeWhile p, p c = true := fun _ => List.mem_takeWhile_imp
  cases behind : text.dropWhile p with
  | nil =>
      rw [toNewline_append noNewline (List.dropWhile_eq_nil_iff.mp behind)] at matched
      exact (Option.some.inj matched).ge
  | cons c more =>
      have split : text = text.takeWhile p ++ c :: more := by
        rw [← behind, List.takeWhile_append_dropWhile]
      have other : p c = false := by
        have first := List.head?_dropWhile_not p text
        rw [behind] at first
        exact first
      have inside : isChar c = true := by
        apply clean
        rw [split]
        exact List.mem_append_right _ List.mem_cons_self
      rw [split, List.append_assoc, List.cons_append,
        toNewline_append_none front other inside] at matched
      cases matched

theorem comment_le {mark : Text} (cleanMark : mark.all isChar = true) {text rest : Text}
    (clean : ∀ c ∈ text, isChar c = true) {n : Nat}
    (matched : comment mark (text ++ newline :: rest) = some n) : n ≤ text.length + 1 := by
  unfold comment at matched
  by_cases isPrefix : mark.isPrefixOf (text ++ newline :: rest) = true
  · have fits : mark.length ≤ text.length :=
      @length_le_of_stops _ isChar _ _ _ (List.isPrefixOf_iff_prefix.mp isPrefix)
        (List.all_eq_true.mp cleanMark) (stops_cons (by decide))
    rw [if_pos isPrefix, List.drop_append_of_le_length fits] at matched
    obtain ⟨m, inner, sum⟩ := Option.map_eq_some_iff.mp matched
    have le := toNewline_le (by decide)
      (fun c member => clean c (List.mem_of_mem_drop member)) inner
    rw [List.length_drop] at le
    omega
  · rw [if_neg isPrefix] at matched
    cases matched

theorem num_le {text rest : Text} {n : Nat}
    (matched : Pattern.num.longest (text ++ newline :: rest) = some n) : n ≤ text.length + 1 := by
  cases text with
  | nil => cases (Pattern.longest_none rest (by decide)).symm.trans matched
  | cons c more =>
      refine Nat.le_succ_of_le ?_
      change (if c = ch '-' then (many isDigit (more ++ newline :: rest)).map (· + 1)
        else many isDigit (c :: more ++ newline :: rest)) = some n at matched
      by_cases minus : c = ch '-'
      · rw [if_pos minus] at matched
        obtain ⟨m, digits, sum⟩ := Option.map_eq_some_iff.mp matched
        rw [← sum]
        exact Nat.succ_le_succ (many_le (by decide) digits)
      · rw [if_neg minus] at matched
        exact many_le (by decide) matched

theorem hex_le {text rest : Text} {n : Nat}
    (matched : Pattern.hex.longest (text ++ newline :: rest) = some n) : n ≤ text.length + 1 := by
  cases text with
  | nil => cases (Pattern.longest_none rest (by decide)).symm.trans matched
  | cons c more =>
      cases more with
      | nil =>
          have noX : ¬ (c = ch '0' ∧ (newline = ch 'x' ∨ newline = ch 'X')) := fun both =>
            absurd both.2 (by decide)
          cases (if_neg noX).symm.trans matched
      | cons x more =>
          change (if c = ch '0' ∧ (x = ch 'x' ∨ x = ch 'X') then
            (many isxdigit (more ++ newline :: rest)).map (· + 2) else none) = some n at matched
          by_cases zero : c = ch '0' ∧ (x = ch 'x' ∨ x = ch 'X')
          · rw [if_pos zero] at matched
            obtain ⟨m, digits, sum⟩ := Option.map_eq_some_iff.mp matched
            rw [← sum]
            exact Nat.le_succ_of_le
              (Nat.succ_le_succ (Nat.succ_le_succ (many_le (by decide) digits)))
          · rw [if_neg zero] at matched
            cases matched

theorem ident_le {text rest : Text} {n : Nat}
    (matched : Pattern.ident.longest (text ++ newline :: rest) = some n) :
    n ≤ text.length + 1 := by
  cases text with
  | nil => cases (Pattern.longest_none rest (by decide)).symm.trans matched
  | cons c more =>
      change (if isLetter c then
        some (((more ++ newline :: rest).takeWhile isWord).length + 1) else none) = some n
        at matched
      by_cases letter : isLetter c = true
      · rw [if_pos letter] at matched
        rw [← Option.some.inj matched]
        exact Nat.le_succ_of_le (Nat.succ_le_succ (takeWhile_le (by decide) more rest))
      · rw [if_neg letter] at matched
        cases matched

/-- No match goes past the newline. -/
theorem longest_le {pattern : Pattern} {text rest : Text} (clean : ∀ c ∈ text, isChar c = true)
    {n : Nat} (matched : pattern.longest (text ++ newline :: rest) = some n) :
    n ≤ text.length + 1 := by
  cases pattern with
  | hash => exact comment_le (by decide) clean matched
  | slashes => exact comment_le (by decide) clean matched
  | slashStar => exact comment_le (by decide) clean matched
  | line => exact toNewline_le (by decide) clean matched
  | blanks => exact Nat.le_succ_of_le (many_le (by decide) matched)
  | dollars => exact Nat.le_succ_of_le (many_le (by decide) matched)
  | instr => exact Nat.le_succ_of_le (oneOf_le (by decide +kernel) matched)
  | reg => exact Nat.le_succ_of_le (oneOf_le (by decide +kernel) matched)
  | num => exact num_le matched
  | hex => exact hex_le matched
  | punct => exact one_le (Nat.succ_pos _) matched
  | ident => exact ident_le matched
  | other => exact other_le (Nat.succ_pos _) matched

/-! ## One match -/

theorem scan_drop (skip : Nat) (bol err : Bool) (text : Text) :
    scan skip bol err text = scan 0 bol err (text.drop skip) := by
  induction text generalizing skip with
  | nil =>
      rw [List.drop_nil]
      cases skip <;> rfl
  | cons c rest ih =>
      cases skip with
      | zero => rfl
      | succ skip => exact ih skip

theorem scan_match {word rest : Text} {pattern : Pattern} (nonempty : word ≠ [])
    (isBest : best Pattern.longest patterns (word ++ rest) = some (word.length, pattern))
    (bol : Bool) :
    scan 0 bol false (word ++ rest) =
      (scan 0 (word.getLast? = some newline) (pattern = .other) rest).after
        ((if bol then savedLines (word ++ rest) word.length else []) ++ pattern.calls word) := by
  cases word with
  | nil => exact absurd rfl nonempty
  | cons c tail =>
      have lexeme : (c :: (tail ++ rest)).take (c :: tail).length = c :: tail := List.take_left
      rw [List.cons_append] at isBest
      rw [List.cons_append, scan, isBest]
      dsimp only
      rw [lexeme, List.length_cons, Nat.add_sub_cancel, scan_drop, List.drop_left]

/-- A match that calls nothing but what its pattern does. -/
theorem scan_inside {word rest : Text} {pattern : Pattern} (nonempty : word ≠ [])
    (clean : ∀ c ∈ word, isChar c = true)
    (isBest : best Pattern.longest patterns (word ++ rest) = some (word.length, pattern))
    (valid : pattern ≠ .other) :
    scan 0 false false (word ++ rest) = (scan 0 false false rest).after (pattern.calls word) := by
  have noNewline : ¬ word.getLast? = some newline := by
    intro last
    have inside := clean newline (List.mem_of_getLast? last)
    exact absurd inside (by decide)
  rw [scan_match nonempty isBest, decide_eq_false noNewline, decide_eq_false valid]
  rfl

theorem scan_end {word rest : Text} {pattern : Pattern}
    (isBest : best Pattern.longest patterns (word ++ newline :: rest) =
      some (word.length + 1, pattern))
    (finishes : pattern.calls (word ++ [newline]) = [.finishLine]) (valid : pattern ≠ .other) :
    scan 0 false false (word ++ newline :: rest) =
      (scan 0 true false rest).after [.finishLine] := by
  have split : word ++ newline :: rest = (word ++ [newline]) ++ rest := List.append_cons _ _ _
  have length : word.length + 1 = (word ++ [newline]).length := by
    rw [List.length_append, List.length_singleton]
  rw [split, length] at isBest
  rw [split, scan_match (by simp) isBest, List.getLast?_concat, decide_eq_true rfl,
    decide_eq_false valid, finishes]
  rfl

/-- The line is kept before its first match. -/
theorem scan_bol {text : Text} (clean : ∀ c ∈ text, isChar c = true) (rest : Text) :
    scan 0 true false (text ++ newline :: rest) =
      (scan 0 false false (text ++ newline :: rest)).after [.saveLine (text ++ [newline])] := by
  cases isBest : best Pattern.longest patterns (text ++ newline :: rest) with
  | none =>
      have unmatched := longest_of_best_none isBest
      cases text with
      | nil =>
          have line : Pattern.line.longest ([] ++ newline :: rest) = some 1 :=
            @toNewline_append isblank (by decide) []
              (fun _ member => absurd member List.not_mem_nil) rest
          cases (unmatched .line (by decide)).symm.trans line
      | cons c more =>
          have other : Pattern.other.longest (c :: more ++ newline :: rest) = some 1 :=
            if_pos (clean c List.mem_cons_self)
          cases (unmatched .other (by decide)).symm.trans other
  | some taken =>
      obtain ⟨n, pattern⟩ := taken
      have le : n ≤ text.length + 1 := longest_le clean (longest_of_best isBest).2
      have saved : savedLines (text ++ newline :: rest) n = [.saveLine (text ++ [newline])] := by
        have front : (text ++ newline :: rest).takeWhile isChar = text :=
          takeWhile_append_stops clean (stops_cons (by decide))
        have whole : (text ++ newline :: rest).take (text.length + 1) = text ++ [newline] := by
          rw [List.take_length_add_append]
          rfl
        have kept : [text.length + 1].filter (n ≤ ·) = [text.length + 1] := by
          rw [List.filter_singleton, decide_eq_true le]
          rfl
        unfold savedLines
        dsimp only
        rw [front, toNewline_append (by decide) clean]
        dsimp only
        rw [Nat.add_sub_cancel_left, List.range'_one, List.reverse_singleton, kept,
          List.map_singleton, whole]
      generalize line : text ++ newline :: rest = file at *
      cases file with
      | nil => cases isBest
      | cons c more =>
          rw [scan, isBest, scan, isBest]
          dsimp only
          rw [saved]
          rfl

/-! ## Blanks -/

theorem starts_blank {c : Byte} (blank : isblank c = true) :
    patterns.filter (Pattern.starts c) = [.line] ++ .blanks :: [.other] := by
  have table : ∀ c : Byte, isblank c = true →
      patterns.filter (Pattern.starts c) = [.line] ++ .blanks :: [.other] := by
    decide +kernel
  exact table c blank

theorem scan_blanks {blanks : Text} (all : ∀ c ∈ blanks, isblank c = true) {d : Byte}
    (other : isblank d = false) (inside : isChar d = true) (rest : Text) :
    scan 0 false false (blanks ++ d :: rest) = scan 0 false false (d :: rest) := by
  cases blanks with
  | nil => rfl
  | cons c more =>
      have isBest : best Pattern.longest patterns (c :: more ++ d :: rest) =
          some ((c :: more).length, .blanks) := by
        rw [List.cons_append, best_starts (starts_blank (all c List.mem_cons_self))]
        refine best_append (many_append (List.cons_ne_nil _ _) all (stops_cons other)) ?_ ?_
        · intro earlier member m matched
          rw [List.mem_singleton.mp member] at matched
          cases (toNewline_append_none all other inside rest).symm.trans matched
        · intro later member m matched
          rw [List.mem_singleton.mp member] at matched
          exact other_le (Nat.succ_pos _) matched
      have table : ∀ c : Byte, isblank c = true → isChar c = true := by decide +kernel
      exact scan_inside (List.cons_ne_nil _ _) (fun c member => table c (all c member)) isBest
        (by decide)

theorem scan_blanks_end {blanks : Text} (all : ∀ c ∈ blanks, isblank c = true) (rest : Text) :
    scan 0 false false (blanks ++ newline :: rest) =
      (scan 0 true false rest).after [.finishLine] := by
  have own := toNewline_append (by decide) all rest
  refine @scan_end _ _ .line ?_ rfl (by decide)
  cases blanks with
  | nil =>
      have table : patterns.filter (Pattern.starts newline) = [] ++ .line :: [] := by decide
      rw [List.nil_append, best_starts table]
      exact best_append own (fun _ member => absurd member List.not_mem_nil)
        (fun _ member => absurd member List.not_mem_nil)
  | cons c more =>
      rw [List.cons_append, best_starts (starts_blank (all c List.mem_cons_self))]
      refine @best_append Byte Pattern _ _ [] [.blanks, .other] .line _ own
        (fun _ member => absurd member List.not_mem_nil) ?_
      intro later member m matched
      rcases List.mem_cons.mp member with rfl | member
      · exact Nat.le_succ_of_le (many_le (by decide) matched)
      · rw [List.mem_singleton.mp member] at matched
        exact other_le (Nat.succ_pos _) matched

theorem scan_blank {c : Byte} (blank : isblank c = true) {text : Text}
    (clean : ∀ c ∈ text, isChar c = true) (rest : Text) :
    scan 0 false false (c :: text ++ newline :: rest) =
      scan 0 false false (text ++ newline :: rest) := by
  have front : ∀ d ∈ text.takeWhile isblank, isblank d = true := fun _ => List.mem_takeWhile_imp
  have more : ∀ d ∈ c :: text.takeWhile isblank, isblank d = true := by
    intro d member
    rcases List.mem_cons.mp member with rfl | member
    · exact blank
    · exact front d member
  cases behind : text.dropWhile isblank with
  | nil =>
      have all : ∀ d ∈ text, isblank d = true := List.dropWhile_eq_nil_iff.mp behind
      have allMore : ∀ d ∈ c :: text, isblank d = true := by
        intro d member
        rcases List.mem_cons.mp member with rfl | member
        · exact blank
        · exact all d member
      rw [scan_blanks_end all, scan_blanks_end allMore]
  | cons d others =>
      have split : text = text.takeWhile isblank ++ d :: others := by
        rw [← behind, List.takeWhile_append_dropWhile]
      have other : isblank d = false := by
        have first := List.head?_dropWhile_not isblank text
        rw [behind] at first
        exact first
      have inside : isChar d = true := by
        apply clean
        rw [split]
        exact List.mem_append_right _ List.mem_cons_self
      have line : text ++ newline :: rest =
          text.takeWhile isblank ++ d :: (others ++ newline :: rest) := by
        nth_rewrite 1 [split]
        rw [List.append_assoc, List.cons_append]
      have whole : c :: text ++ newline :: rest =
          c :: text.takeWhile isblank ++ d :: (others ++ newline :: rest) := by
        rw [List.cons_append, line, List.cons_append]
      rw [whole, line, scan_blanks front other inside, scan_blanks more other inside]

theorem scan_dollars {dollars rest : Text} (all : ∀ c ∈ dollars, decide (c = ch '$') = true)
    (stops : Stops (· = ch '$') rest) :
    scan 0 false false (dollars ++ rest) = scan 0 false false rest := by
  cases dollars with
  | nil => rfl
  | cons c more =>
      have isDollar := of_decide_eq_true (all c List.mem_cons_self)
      have own : Pattern.dollars.longest (c :: more ++ rest) = some (c :: more).length :=
        many_append (List.cons_ne_nil _ _) all stops
      have table : patterns.filter (Pattern.starts c) = [.dollars, .other] := by
        rw [isDollar]
        decide +kernel
      refine scan_inside (List.cons_ne_nil _ _) ?_ (best_alone table own (Nat.succ_pos _))
        (by decide)
      intro d member
      rw [of_decide_eq_true (all d member)]
      decide

theorem scan_dollar (rest : Text) :
    scan 0 false false (ch '$' :: rest) = scan 0 false false rest := by
  have front : ∀ c ∈ rest.takeWhile (· = ch '$'), decide (c = ch '$') = true := fun _ =>
    List.mem_takeWhile_imp
  have more : ∀ c ∈ ch '$' :: rest.takeWhile (· = ch '$'), decide (c = ch '$') = true := by
    intro c member
    rcases List.mem_cons.mp member with rfl | member
    · rfl
    · exact front c member
  have stops : Stops (· = ch '$') (rest.dropWhile (· = ch '$')) := by
    intro c isFirst
    have first := List.head?_dropWhile_not (· = ch '$') rest
    rw [isFirst] at first
    exact first
  rw [← @List.takeWhile_append_dropWhile _ (· = ch '$') rest, ← List.cons_append,
    scan_dollars more stops, scan_dollars front stops]

/-! ## Lines -/

theorem scan_comment {mark : Text} (isMark : mark ∈ [ascii "#", ascii "//", ascii "/*"])
    {text : Text} (clean : ∀ c ∈ text, isChar c = true) (rest : Text) :
    scan 0 false false (mark ++ text ++ newline :: rest) =
      (scan 0 true false rest).after [.finishLine] := by
  have own {mark : Text} :
      comment mark (mark ++ text ++ newline :: rest) = some ((mark ++ text).length + 1) := by
    have isPrefix : mark.isPrefixOf (mark ++ text ++ newline :: rest) = true := by
      rw [List.isPrefixOf_iff_prefix, List.append_assoc]
      exact List.prefix_append _ _
    unfold comment
    rw [if_pos isPrefix, List.append_assoc, List.drop_left, toNewline_append (by decide) clean,
      List.length_append]
    exact congrArg some (Nat.add_assoc _ _ _).symm
  have table : patterns.filter (Pattern.starts (ch '/')) = [.slashes, .slashStar, .other] := by
    decide +kernel
  simp only [List.mem_cons, List.not_mem_nil, or_false] at isMark
  rcases isMark with rfl | rfl | rfl
  · exact @scan_end _ _ .hash (best_alone (by decide) own (Nat.succ_pos _)) rfl (by decide)
  · refine @scan_end _ _ .slashes ((best_starts table _).trans ?_) rfl (by decide)
    refine @best_append Byte Pattern _ _ [] [.slashStar, .other] .slashes _ own
      (fun _ member => absurd member List.not_mem_nil) ?_
    intro later member m matched
    rcases List.mem_cons.mp member with rfl | member
    · have notStar : Pattern.slashStar.longest (ascii "//" ++ text ++ newline :: rest) = none := rfl
      cases notStar.symm.trans matched
    · rw [List.mem_singleton.mp member] at matched
      exact other_le (Nat.succ_pos _) matched
  · have notSlashes : Pattern.slashes.longest (ascii "/*" ++ text ++ newline :: rest) = none := rfl
    refine @scan_end _ _ .slashStar
      ((best_starts table _).trans ((best_cons_none _ notSlashes).trans ?_)) rfl (by decide)
    refine @best_append Byte Pattern _ _ [] [.other] .slashStar _ own
      (fun _ member => absurd member List.not_mem_nil) ?_
    intro later member m matched
    rw [List.mem_singleton.mp member] at matched
    exact other_le (Nat.succ_pos _) matched

/-- A written line is kept, its tokens are added, and it is finished. -/
theorem scan_written {ts : List Token} {text : Text} (written : Written ts text)
    (clean : ∀ c ∈ text, isChar c = true) (rest : Text) :
    scan 0 false false (text ++ newline :: rest) =
      (scan 0 true false rest).after (ts.map .addToken ++ [.finishLine]) := by
  induction written with
  | done => exact scan_blanks_end (fun _ member => absurd member List.not_mem_nil) rest
  | comment isMark =>
      exact scan_comment isMark (fun c member => clean c (List.mem_append_right _ member)) rest
  | blank isBlank written ih =>
      have inside := fun c member => clean c (List.mem_cons_of_mem _ member)
      rcases isBlank with blank | rfl
      · exact (scan_blank blank inside rest).trans (ih inside)
      · exact (scan_dollar _).trans (ih inside)
  | @token t ts word text spelled apart written ih =>
      have apartLine : t.isOpen = true → Stops isWord (text ++ newline :: rest) := by
        intro isOpen
        cases text with
        | nil => exact stops_cons (by decide)
        | cons c more => exact apart isOpen
      obtain ⟨pattern, isBest, valid, calls⟩ := best_spelled spelled apartLine
      have inWord := fun c member => clean c (List.mem_append_left _ member)
      have behind := fun c member => clean c (List.mem_append_right _ member)
      rw [List.append_assoc, scan_inside spelled.nonempty inWord isBest valid, calls, ih behind]
      rfl

end Yess.Yas
