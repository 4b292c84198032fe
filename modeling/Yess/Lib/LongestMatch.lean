import Mathlib.Data.List.Basic

/-!
# Longest matches

A scanner has a list of rules, each of which matches some beginnings of a text.  The
rule with the longest match is taken, and of several such rules the first.
-/

namespace Yess.Lib.LongestMatch

variable {α ι : Type*}

/-- The match that is taken, with its rule.  `longest` gives the length of the longest match
of a rule. -/
def best (longest : ι → List α → Option Nat) : List ι → List α → Option (Nat × ι)
  | [], _ => none
  | rule :: rest, text =>
      match longest rule text, best longest rest text with
      | none, later => later
      | some n, none => some (n, rule)
      | some n, some later => if n < later.1 then some later else some (n, rule)

variable {longest : ι → List α → Option Nat} {text : List α}

theorem best_cons_none {rule : ι} (rest : List ι) (noMatch : longest rule text = none) :
    best longest (rule :: rest) text = best longest rest text := by
  rw [best, noMatch]

/-- Rules without a match do not matter. -/
theorem best_filter (keep : ι → Bool) {rules : List ι}
    (others : ∀ rule ∈ rules, keep rule = false → longest rule text = none) :
    best longest rules text = best longest (rules.filter keep) text := by
  induction rules with
  | nil => rfl
  | cons rule rest ih =>
      have tail := ih fun other member => others other (List.mem_cons_of_mem _ member)
      cases kept : keep rule with
      | false =>
          rw [List.filter_cons_of_neg (by rw [kept]; decide),
            best_cons_none rest (others rule List.mem_cons_self kept), tail]
      | true => rw [List.filter_cons_of_pos kept, best, best, tail]

/-- What is taken is the match of one of the rules. -/
theorem longest_of_best {rules : List ι} {taken : Nat × ι}
    (isBest : best longest rules text = some taken) :
    taken.2 ∈ rules ∧ longest taken.2 text = some taken.1 := by
  induction rules with
  | nil => cases isBest
  | cons rule rest ih =>
      have here {n : Nat} (own : longest rule text = some n)
          (isTaken : some (n, rule) = some taken) :
          taken.2 ∈ rule :: rest ∧ longest taken.2 text = some taken.1 := by
        cases isTaken
        exact ⟨List.mem_cons_self, own⟩
      have later (isTaken : best longest rest text = some taken) :
          taken.2 ∈ rule :: rest ∧ longest taken.2 text = some taken.1 :=
        (ih isTaken).imp_left (List.mem_cons_of_mem _)
      unfold best at isBest
      cases own : longest rule text with
      | none =>
          rw [own] at isBest
          exact later isBest
      | some n =>
          rw [own] at isBest
          cases others : best longest rest text with
          | none =>
              rw [others] at isBest
              exact here own isBest
          | some other =>
              rw [others] at isBest
              dsimp only at isBest
              by_cases longer : n < other.1
              · rw [if_pos longer] at isBest
                exact later (others.trans isBest)
              · rw [if_neg longer] at isBest
                exact here own isBest

theorem longest_of_best_none {rules : List ι} (noBest : best longest rules text = none) :
    ∀ rule ∈ rules, longest rule text = none := by
  induction rules with
  | nil => exact fun _ member => absurd member List.not_mem_nil
  | cons first rest ih =>
      have unmatched : longest first text = none := by
        cases own : longest first text with
        | none => rfl
        | some n =>
            rw [best, own] at noBest
            cases others : best longest rest text with
            | none =>
                rw [others] at noBest
                cases noBest
            | some later =>
                rw [others] at noBest
                dsimp only at noBest
                by_cases longer : n < later.1
                · rw [if_pos longer] at noBest
                  cases noBest
                · rw [if_neg longer] at noBest
                  cases noBest
      rw [best_cons_none rest unmatched] at noBest
      intro rule member
      rcases List.mem_cons.mp member with rfl | member
      · exact unmatched
      · exact ih noBest rule member

/-- A rule is taken when the rules before it match less, and those behind it not more. -/
theorem best_append {before after : List ι} {rule : ι} {n : Nat}
    (own : longest rule text = some n)
    (less : ∀ other ∈ before, ∀ m ∈ longest other text, m < n)
    (notMore : ∀ other ∈ after, ∀ m ∈ longest other text, m ≤ n) :
    best longest (before ++ rule :: after) text = some (n, rule) := by
  induction before with
  | nil =>
      rw [List.nil_append, best, own]
      cases others : best longest after text with
      | none => rfl
      | some other =>
          obtain ⟨member, matched⟩ := longest_of_best others
          exact if_neg (Nat.not_lt.mpr (notMore other.2 member other.1 matched))
  | cons first rest ih =>
      have others := ih fun other member => less other (List.mem_cons_of_mem _ member)
      rw [List.cons_append, best, others]
      cases matched : longest first text with
      | none => rfl
      | some m => exact if_pos (less first List.mem_cons_self m matched)

/-! ## Runs of characters -/

section Runs

variable {p : α → Bool} {word rest : List α} {c : α}

def Stops (p : α → Bool) (text : List α) : Prop := ∀ c ∈ text.head?, p c = false

theorem stops_cons (other : p c = false) : Stops p (c :: rest) := by
  intro d isFirst
  rwa [← Option.some.inj isFirst]

theorem takeWhile_append_stops (all : ∀ c ∈ word, p c = true)
    (stops : Stops p rest) : (word ++ rest).takeWhile p = word := by
  rw [List.takeWhile_append_of_pos all]
  cases rest with
  | nil => exact List.append_nil _
  | cons c rest =>
      rw [List.takeWhile_cons_of_neg (Bool.eq_false_iff.mp (stops c rfl)), List.append_nil]

theorem length_le_of_stops {part : List α} (isPrefix : part <+: word ++ rest)
    (all : ∀ c ∈ part, p c = true) (stops : Stops p rest) : part.length ≤ word.length := by
  by_contra longer
  have inside : word.length < part.length := Nat.not_le.mp longer
  have same := List.prefix_iff_getElem?.mp isPrefix word.length inside
  rw [List.getElem?_append_right (Nat.le_refl _), Nat.sub_self, ← List.head?_eq_getElem?] at same
  have goesOn := all _ (List.getElem_mem inside)
  rw [stops _ same] at goesOn
  cases goesOn

def many (p : α → Bool) (text : List α) : Option Nat :=
  let n := (text.takeWhile p).length
  if n = 0 then none else some n

theorem many_append (nonempty : word ≠ [])
    (all : ∀ c ∈ word, p c = true) (stops : Stops p rest) :
    many p (word ++ rest) = some word.length := by
  unfold many
  rw [takeWhile_append_stops all stops]
  exact if_neg fun empty => nonempty (List.length_eq_zero_iff.mp empty)

theorem many_cons_none (other : p c = false) :
    many p (c :: rest) = none := by
  unfold many
  rw [List.takeWhile_cons_of_neg (Bool.eq_false_iff.mp other)]
  rfl

end Runs

/-! ## Words -/

def oneOf [DecidableEq α] (words : List (List α)) (text : List α) : Option Nat :=
  ((words.filter fun word => word.isPrefixOf text).map List.length).max?

theorem oneOf_eq_some_iff [DecidableEq α] {words : List (List α)} {text : List α} {n : Nat} :
    oneOf words text = some n ↔
      (∃ word ∈ words, word <+: text ∧ word.length = n) ∧
        ∀ word ∈ words, word <+: text → word.length ≤ n := by
  have member (n : Nat) : n ∈ (words.filter fun word => word.isPrefixOf text).map List.length ↔
      ∃ word ∈ words, word <+: text ∧ word.length = n := by
    simp [List.mem_map, List.mem_filter, and_assoc]
  unfold oneOf
  rw [List.max?_eq_some_iff, member]
  constructor
  · rintro ⟨found, most⟩
    refine ⟨found, fun word listed isPrefix => most _ ?_⟩
    exact (member _).mpr ⟨word, listed, isPrefix, rfl⟩
  · rintro ⟨found, most⟩
    refine ⟨found, fun m isLength => ?_⟩
    obtain ⟨word, listed, isPrefix, length⟩ := (member m).mp isLength
    rw [← length]
    exact most word listed isPrefix

theorem oneOf_cons_none [DecidableEq α] {words : List (List α)} {starts : α → Bool}
    (table : ∀ word ∈ words, word.head?.any starts = true) {c : α}
    (other : starts c = false) (rest : List α) : oneOf words (c :: rest) = none := by
  cases found : oneOf words (c :: rest) with
  | none => rfl
  | some n =>
      obtain ⟨⟨word, listed, isPrefix, -⟩, -⟩ := oneOf_eq_some_iff.mp found
      have isStart := table word listed
      cases word with
      | nil => cases isStart
      | cons head tail =>
          obtain ⟨same, -⟩ := List.cons_prefix_cons.mp isPrefix
          change starts head = true at isStart
          rw [same, other] at isStart
          cases isStart

end Yess.Lib.LongestMatch
