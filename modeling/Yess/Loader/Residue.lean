import Yess.Loader.Failure

/-!
# What a line leaves in the buffer for the next one

Each line is copied over the line before it, and the checks of `validline` look at
columns that a short line does not reach.  Two loads that come to the same line
with the same previous address may judge it differently; the lines for which that
can happen are exactly the data lines that are cut short behind their address.
-/

namespace Yess

open Lib.CString

/-! ## The copy of a line -/

theorem strlcpy_text (buf : Buffer) (record : Text) :
    (strlcpy buf record).text = copied record := by
  have short : (copied record).length < recordLen := by
    rw [length_copied]
    exact Nat.lt_of_le_of_lt (Nat.min_le_left _ _) (by decide)
  have clean : nul ∉ copied record := by
    intro member
    have inString := List.mem_of_mem_take member
    exact absurd (List.mem_takeWhile_imp inString) (by decide)
  obtain ⟨rest, whole⟩ := Nat.exists_eq_add_of_lt short
  have columns : List.ofFn (strlcpy buf record) = copied record ++
      nul :: ((List.range rest).map fun n =>
        (strlcpy buf record).get ((copied record).length + (n + 1))) := by
    rw [Buffer.ofFn_eq, whole, Nat.add_assoc, List.range_add, List.map_append]
    congr 1
    · refine List.ext_getElem (by simp) fun n first second => ?_
      rw [List.getElem_map, List.getElem_range, strlcpy_get buf record (by omega),
        if_pos (Nat.le_of_lt second), List.getElem?_eq_getElem second]
      rfl
    · rw [List.range_succ_eq_map, List.map_cons, List.map_cons, List.map_map, List.map_map,
        Nat.add_zero, strlcpy_get buf record short, if_pos (Nat.le_refl _),
        List.getElem?_eq_none (Nat.le_refl _)]
      rfl
  rw [Buffer.text, columns, cstring_append clean]
  exact List.append_nil _

theorem strlcpy_agree (buf other : Buffer) (record : Text) {n : Nat}
    (own : n ≤ (copied record).length) (inside : n < recordLen) :
    (strlcpy buf record).get n = (strlcpy other record).get n := by
  rw [strlcpy_get buf record inside, strlcpy_get other record inside, if_pos own, if_pos own]

theorem strlcpy_end (buf : Buffer) {record : Text} {n : Nat} (isEnd : n = (copied record).length)
    (inside : n < recordLen) : (strlcpy buf record).get n = nul := by
  rw [strlcpy_get buf record inside, if_pos (Nat.le_of_eq isEnd),
    List.getElem?_eq_none (Nat.le_of_eq isEnd.symm)]
  rfl

theorem strlcpy_behind (buf : Buffer) {record : Text} {n : Nat}
    (behind : (copied record).length < n) (inside : n < recordLen) :
    (strlcpy buf record).get n = buf.get n := by
  rw [strlcpy_get buf record inside, if_neg (Nat.not_le.mpr behind)]

/-! ## Checks that agree -/

theorem validateaddress_congr {line other : Buffer} {prev_addr : Int}
    (digits : ∀ i, 4 ≤ i → i ≤ 6 → line.get i = other.get i) (text : line.text = other.text) :
    validateaddress line recordLen prev_addr = validateaddress other recordLen prev_addr := by
  have sameDigits : hashexdigits line recordLen 4 6 = hashexdigits other recordLen 4 6 := by
    rw [Bool.eq_iff_iff, hashexdigits_address_iff, hashexdigits_address_iff,
      digits 4 (by decide) (by decide), digits 5 (by decide) (by decide),
      digits 6 (by decide) (by decide)]
  have sameAddress : grabAddress line recordLen = grabAddress other recordLen := by
    unfold grabAddress
    rw [text]
  unfold validateaddress
  rw [sameDigits, sameAddress]

theorem isdatarecord_congr {line other : Buffer} (front : ∀ i, i ≤ 8 → line.get i = other.get i)
    (blank21 : isblank (other.get 21) = true) (isData : isdatarecord line = true) :
    isdatarecord other = true := by
  have columns := (isdatarecord_iff line).mp isData
  rw [isdatarecord_iff]
  constructor
  · exact front 0 (by decide) ▸ columns.blank0
  · exact front 1 (by decide) ▸ columns.blank1
  · exact front 8 (by decide) ▸ columns.blank8
  · exact blank21
  · exact front 2 (by decide) ▸ columns.zero
  · exact front 3 (by decide) ▸ columns.x
  · exact front 7 (by decide) ▸ columns.colon

theorem pair_congr {line other : Buffer} {k : Nat} (small : k ≤ 5)
    (same : ∀ i, i ≤ 22 → line.get i = other.get i) : Pair line k ↔ Pair other k := by
  unfold Pair
  rw [same _ (by omega), same _ (by omega)]

/-- A valid line that reaches its bar is valid on the strength of these columns. -/
theorem validline_of_agree {line other : Buffer} {prev_addr : Int}
    (same : ∀ i, i ≤ 22 → line.get i = other.get i) (text : line.text = other.text)
    (long : 21 ≤ line.text.length) (valid : validline line recordLen prev_addr = true) :
    validline other recordLen prev_addr = true := by
  rw [validline_iff] at valid ⊢
  obtain ⟨bar, comment | checked⟩ := valid
  · refine ⟨same 22 (by decide) ▸ bar, Or.inl ?_⟩
    rw [iscommentrecord_iff] at comment ⊢
    intro i small
    rw [← same i (by omega)]
    exact comment i small
  · have columns := (isdatarecord_iff line).mp checked.isData
    have blank21 : isblank (other.get 21) = true := same 21 (by decide) ▸ columns.blank21
    refine ⟨same 22 (by decide) ▸ bar, Or.inr ⟨?_, ?_, fun nonzero => ?_⟩⟩
    · exact isdatarecord_congr (fun i small => same i (by omega)) blank21 checked.isData
    · rw [← validateaddress_congr (fun i _ upper => same i (by omega)) text]
      exact checked.address
    · have first : Pair other 0 := by
        have spec := hasdata_spec (not_isxdigit_of_isblank blank21)
        exact spec.2.1 0 (Nat.pos_of_ne_zero nonzero)
      have lineNonzero : hasdata line recordLen ≠ 0 := by
        intro zero
        have stop := checked.hasdata_spec.2.2
        rw [zero] at stop
        exact stop ((pair_congr (by decide) same).mpr first)
      obtain ⟨-, partnered⟩ := (validatedata_iff long).mp (checked.data lineNonzero)
      refine (validatedata_iff (text ▸ long)).mpr ⟨first, fun k lower upper digit => ?_⟩
      rw [← same _ (by omega)] at digit ⊢
      exact partnered k lower upper digit

/-! ## Lines that are cut short -/

/-- The line by itself: its copy into a buffer of NULs. -/
def ownLine (record : Text) : Buffer := strlcpy (fun _ => nul) record

/-- The line is a data line up to its data field, has no byte there, and ends before
the blank and the bar that should follow. -/
structure CutShort (record : Text) (prev_addr : Int) : Prop where
  short : (cstring record).length ≤ 20
  blanks : isblank ((ownLine record).get 0) = true ∧ isblank ((ownLine record).get 1) = true ∧
    isblank ((ownLine record).get 8) = true
  hasAddress : hasaddress (ownLine record) = true
  address : validateaddress (ownLine record) recordLen prev_addr = true
  noData : hasdata (ownLine record) recordLen = 0

/-- The buffer has a blank and a bar where the checks look for them. -/
structure Barred (buf : Buffer) : Prop where
  blank : isblank (buf.get 21) = true
  bar : buf.get 22 = ch '|'

/-- Every valid line leaves a barred buffer. -/
theorem barred_of_validline {line : Buffer} {prev_addr : Int}
    (valid : validline line recordLen prev_addr = true) : Barred line := by
  obtain ⟨bar, comment | checked⟩ := (validline_iff line prev_addr).mp valid
  · have blank := (iscommentrecord_iff line).mp comment 21 (by decide)
    exact ⟨by rw [blank]; rfl, bar⟩
  · exact ⟨((isdatarecord_iff line).mp checked.isData).blank21, bar⟩

theorem hasdata_eq_zero_iff {line : Buffer} (noDigit : isxdigit (line.get 21) = false) :
    hasdata line recordLen = 0 ↔ ¬ Pair line 0 := by
  constructor
  · intro zero
    have stop := (hasdata_spec noDigit).2.2
    rwa [zero] at stop
  · intro stop
    exact hasdata_eq (fun k below => absurd below (Nat.not_lt_zero k)) stop (by decide)

/-- A line that ends before its data can be a record has none that the checks find,
in one buffer as in another. -/
theorem pair_zero_iff {buf other : Buffer} {record : Text} (start : 9 ≤ (copied record).length) :
    Pair (strlcpy buf record) 0 ↔ Pair (strlcpy other record) 0 := by
  have notPair (any : Buffer) (nine : 9 = (copied record).length) :
      ¬ Pair (strlcpy any record) 0 := by
    intro pair
    have digit := pair.1
    rw [strlcpy_end any nine (by decide)] at digit
    exact absurd digit (by decide)
  rcases Nat.lt_or_eq_of_le start with more | nine
  · unfold Pair
    rw [strlcpy_agree buf other record (n := 9 + 2 * 0) (by omega) (by decide),
      strlcpy_agree buf other record (n := 10 + 2 * 0) (by omega) (by decide)]
  · exact iff_of_false (notPair buf nine) (notPair other nine)

theorem validatedata_short {line : Buffer} (short : line.text.length ≤ 20) :
    validatedata line = false := by
  unfold validatedata
  exact if_pos (Nat.lt_succ_of_le short)

/-- A line that is accepted although it does not reach its bar. -/
theorem cutShort_of_validline {buf : Buffer} {record : Text} {prev_addr : Int}
    (short : (cstring record).length ≤ 22)
    (valid : validline (strlcpy buf record) recordLen prev_addr = true) :
    CutShort record prev_addr := by
  have length : (copied record).length = (cstring record).length :=
    (length_copied record).trans (Nat.min_eq_right (Nat.le_trans short (by decide)))
  obtain ⟨blank21, bar⟩ := barred_of_validline valid
  have ends {n : Nat} (isEnd : n = (copied record).length) (inside : n < recordLen) :=
    strlcpy_end buf isEnd inside
  have not22 : 22 ≠ (copied record).length := by
    intro isEnd
    rw [ends isEnd (by decide)] at bar
    exact absurd bar (by decide)
  have not21 : 21 ≠ (copied record).length := by
    intro isEnd
    rw [ends isEnd (by decide)] at blank21
    exact absurd blank21 (by decide)
  have before : (copied record).length ≤ 20 := by omega
  have checked : DataLine (strlcpy buf record) prev_addr := by
    rcases ((validline_iff _ prev_addr).mp valid).2 with comment | checked
    · have blank := (iscommentrecord_iff _).mp comment _ (Nat.lt_of_le_of_lt before (by decide))
      rw [ends rfl (Nat.lt_of_le_of_lt before (by decide))] at blank
      exact absurd blank (by decide)
    · exact checked
  have start : 9 ≤ (copied record).length := by
    by_contra early
    exact checked.clean (Nat.lt_of_not_le early)
      (ends rfl (Nat.lt_of_le_of_lt before (by decide)))
  have front (i : Nat) (small : i ≤ 8) : (strlcpy buf record).get i = (ownLine record).get i :=
    strlcpy_agree buf _ record (by omega) (Nat.lt_of_le_of_lt small (by decide))
  have columns := (isdatarecord_iff _).mp checked.isData
  have text : (strlcpy buf record).text = (ownLine record).text := by
    rw [strlcpy_text, ownLine, strlcpy_text]
  have noPair : ¬ Pair (strlcpy buf record) 0 := by
    intro pair
    have nonzero : hasdata (strlcpy buf record) recordLen ≠ 0 := fun zero =>
      (hasdata_eq_zero_iff (not_isxdigit_of_isblank blank21)).mp zero pair
    have data := checked.data nonzero
    rw [validatedata_short (by rw [strlcpy_text]; exact before)] at data
    exact Bool.false_ne_true data
  constructor
  · exact length ▸ before
  · rw [← front 0 (by decide), ← front 1 (by decide), ← front 8 (by decide)]
    exact ⟨columns.blank0, columns.blank1, columns.blank8⟩
  · have address := checked.hasaddress
    rw [hasaddress_iff] at address ⊢
    rw [← front 2 (by decide), ← front 3 (by decide), ← front 4 (by decide),
      ← front 5 (by decide), ← front 6 (by decide), ← front 7 (by decide)]
    exact address
  · rw [← validateaddress_congr (fun i _ upper => front i (by omega)) text]
    exact checked.address
  · have noDigit : isxdigit ((ownLine record).get 21) = false := by
      rw [ownLine, strlcpy_behind _ (by omega) (by decide)]
      decide
    rw [hasdata_eq_zero_iff noDigit]
    exact fun pair => noPair ((pair_zero_iff start).mpr pair)

/-- A line that is cut short is accepted in a barred buffer. -/
theorem CutShort.validline {record : Text} {prev_addr : Int} (cut : CutShort record prev_addr)
    {buf : Buffer} (barred : Barred buf) :
    validline (strlcpy buf record) recordLen prev_addr = true := by
  have short := cut.short
  have length : (copied record).length = (cstring record).length :=
    (length_copied record).trans (Nat.min_eq_right (Nat.le_trans short (by decide)))
  have start : 9 ≤ (copied record).length := by
    by_contra early
    have blank := cut.blanks.2.2
    have isNul : (ownLine record).get 8 = nul := by
      rcases Nat.lt_or_eq_of_le (Nat.le_of_lt_succ (Nat.lt_of_not_le early)) with below | isEnd
      · rw [ownLine, strlcpy_behind _ below (by decide)]
        rfl
      · exact strlcpy_end _ isEnd.symm (by decide)
    rw [isNul] at blank
    exact absurd blank (by decide)
  have front (i : Nat) (small : i ≤ 8) : (ownLine record).get i = (strlcpy buf record).get i :=
    strlcpy_agree _ buf record (by omega) (Nat.lt_of_le_of_lt small (by decide))
  have blank21 : isblank ((strlcpy buf record).get 21) = true := by
    rw [strlcpy_behind buf (by omega) (by decide)]
    exact barred.blank
  obtain ⟨blank0, blank1, blank8⟩ := cut.blanks
  obtain ⟨⟨zero, x, colon⟩, -⟩ := (hasaddress_iff _).mp cut.hasAddress
  rw [front 0 (by decide)] at blank0
  rw [front 1 (by decide)] at blank1
  rw [front 8 (by decide)] at blank8
  rw [front 2 (by decide)] at zero
  rw [front 3 (by decide)] at x
  rw [front 7 (by decide)] at colon
  rw [validline_iff]
  refine ⟨?_, Or.inr ⟨(isdatarecord_iff _).mpr
    ⟨blank0, blank1, blank8, blank21, zero, x, colon⟩, ?_, fun nonzero => ?_⟩⟩
  · rw [strlcpy_behind buf (by omega) (by decide)]
    exact barred.bar
  · have text : (ownLine record).text = (strlcpy buf record).text := by
      rw [strlcpy_text, ownLine, strlcpy_text]
    rw [← validateaddress_congr (fun i _ upper => front i (by omega)) text]
    exact cut.address
  · have noDigit : isxdigit ((ownLine record).get 21) = false := by
      rw [ownLine, strlcpy_behind _ (by omega) (by decide)]
      decide
    have noPair := (hasdata_eq_zero_iff noDigit).mp cut.noData
    refine absurd ?_ nonzero
    rw [hasdata_eq_zero_iff (not_isxdigit_of_isblank blank21)]
    exact fun pair => noPair ((pair_zero_iff start).mpr pair)

/-! ## The verdict on a line -/

/-- A load of some file, from some buffer, comes to the line `record` in the state
`s`, in which the previous address is `prev_addr`. -/
structure ComesUp (record : Text) (prev_addr : Int) (s : LoadState) : Prop where
  prevaddr : s.prevaddr = prev_addr
  reached : ∃ (file : Text) (buf : Buffer) (memory : Memory) (before after : List Text),
    getlines file = before ++ record :: after ∧
      loadLines (LoadState.start buf memory) before = .ok s

/-- The verdict on a line depends on the line and the previous address alone, and an
accepted line reaches its bar. -/
structure OwnVerdict (record : Text) (prev_addr : Int) : Prop where
  same : ∀ s other, ComesUp record prev_addr s → ComesUp record prev_addr other →
    ((∃ next, loadLine s record = .ok next) ↔ ∃ next, loadLine other record = .ok next)
  reachesBar : ∀ s, ComesUp record prev_addr s → (∃ next, loadLine s record = .ok next) →
    23 ≤ (cstring record).length ∧ (cstring record)[22]? = some (ch '|') ∧
      ∃ c, (cstring record)[21]? = some c ∧ isblank c = true

theorem barred_of_loadLines {s final : LoadState} {records : List Text} (nonempty : records ≠ [])
    (loaded : loadLines s records = .ok final) : Barred final.buf := by
  induction records generalizing s with
  | nil => exact absurd rfl nonempty
  | cons record rest ih =>
      obtain ⟨next, line, others⟩ := loadLines_cons loaded
      cases rest with
      | nil =>
          obtain rfl := Except.ok.inj others
          have loadedLine := lineLoaded_of_ok line
          rw [loadedLine.buf]
          exact barred_of_validline loadedLine.valid
      | cons second more => exact ih (List.cons_ne_nil _ _) others

def barredBuffer : Buffer := fun place => if place.val = 22 then ch '|' else space

theorem barred_barredBuffer : Barred barredBuffer := ⟨by decide, by decide⟩

/-- A line that comes up at all comes up somewhere in a barred buffer. -/
theorem ComesUp.exists_barred {record : Text} {prev_addr : Int} {s : LoadState}
    (comesUp : ComesUp record prev_addr s) :
    ∃ other, ComesUp record prev_addr other ∧ Barred other.buf := by
  obtain ⟨prevaddr, file, buf, memory, before, after, lines, loaded⟩ := comesUp
  cases before with
  | nil =>
      obtain rfl := Except.ok.inj loaded
      exact ⟨LoadState.start barredBuffer memory,
        ⟨prevaddr, file, barredBuffer, memory, [], after, lines, rfl⟩, barred_barredBuffer⟩
  | cons first more =>
      exact ⟨s, ⟨prevaddr, file, buf, memory, first :: more, after, lines, loaded⟩,
        barred_of_loadLines (List.cons_ne_nil _ _) loaded⟩

theorem strlcpy_column (buf : Buffer) {record : Text} {n : Nat}
    (long : 23 ≤ (cstring record).length) (small : n < 23) :
    (cstring record)[n]? = some ((strlcpy buf record).get n) := by
  have own : n < (copied record).length := by
    rw [length_copied, Nat.lt_min]
    exact ⟨Nat.lt_trans small (by decide), Nat.lt_of_lt_of_le small long⟩
  have inside : n < (cstring record).length := Nat.lt_of_lt_of_le small long
  rw [strlcpy_get buf record (Nat.lt_trans small (by decide)), if_pos (Nat.le_of_lt own),
    List.getElem?_eq_getElem own, List.getElem?_eq_getElem inside]
  simp [copied]

/-- For every line that comes up in a load: the verdict on it is its own if and only
if it is not cut short behind its address. -/
theorem ownVerdict_iff {record : Text} {prev_addr : Int} {s : LoadState}
    (comesUp : ComesUp record prev_addr s) :
    OwnVerdict record prev_addr ↔ ¬ CutShort record prev_addr := by
  constructor
  · intro verdict cut
    obtain ⟨barred, comesUpBarred, isBarred⟩ := comesUp.exists_barred
    have accepted : ∃ next, loadLine barred record = .ok next := by
      rw [loadLine_ok_iff, comesUpBarred.prevaddr]
      exact cut.validline isBarred
    have long := (verdict.reachesBar barred comesUpBarred accepted).1
    have short := cut.short
    omega
  · intro notCut
    have long (buf : Buffer) (valid : validline (strlcpy buf record) recordLen prev_addr = true) :
        23 ≤ (cstring record).length := by
      by_contra short
      exact notCut (cutShort_of_validline (Nat.le_of_lt_succ (Nat.lt_of_not_le short)) valid)
    have transfer (buf other : Buffer)
        (valid : validline (strlcpy buf record) recordLen prev_addr = true) :
        validline (strlcpy other record) recordLen prev_addr = true := by
      have reaches := long buf valid
      have own : 23 ≤ (copied record).length := by
        rw [length_copied, Nat.le_min]
        exact ⟨by decide, reaches⟩
      have text : (strlcpy buf record).text = (strlcpy other record).text := by
        rw [strlcpy_text, strlcpy_text]
      refine validline_of_agree (fun i small => ?_) text ?_ valid
      · exact strlcpy_agree buf other record (by omega) (Nat.lt_of_le_of_lt small (by decide))
      · rw [strlcpy_text]
        omega
    constructor
    · intro first second firstUp secondUp
      rw [loadLine_ok_iff, loadLine_ok_iff, firstUp.prevaddr, secondUp.prevaddr]
      exact ⟨transfer first.buf second.buf, transfer second.buf first.buf⟩
    · intro state stateUp accepted
      rw [loadLine_ok_iff, stateUp.prevaddr] at accepted
      have reaches := long state.buf accepted
      obtain ⟨blank21, bar⟩ := barred_of_validline accepted
      refine ⟨reaches, ?_, _, strlcpy_column state.buf reaches (by decide), blank21⟩
      rw [strlcpy_column state.buf reaches (by decide), bar]

/-- An address and its colon, and nothing behind them. -/
def bareAddress : Text := ascii "  0x000: " ++ [newline]

/-- A comment record without a comment. -/
def blankComment : Text := ascii "                      |" ++ [newline]

/-- The bare address is refused by itself and accepted behind the comment, with the
same previous address; its verdict is not its own. -/
theorem bareAddress_verdict :
    (load (ascii "a.yo") (some bareAddress) (fun _ => nul) initMemory).result = false ∧
      (load (ascii "a.yo") (some (blankComment ++ bareAddress)) (fun _ => nul)
        initMemory).result = true ∧
      ¬ OwnVerdict bareAddress (-1) := by
  refine ⟨by decide +kernel, by decide +kernel, fun verdict => ?_⟩
  have comesUp : ComesUp bareAddress (-1) (LoadState.start barredBuffer initMemory) :=
    ⟨rfl, bareAddress, barredBuffer, initMemory, [], [], by decide, rfl⟩
  have accepted : ∃ next,
      loadLine (LoadState.start barredBuffer initMemory) bareAddress = .ok next := by
    rw [loadLine_ok_iff]
    decide +kernel
  exact absurd (verdict.reachesBar _ comesUp accepted).1 (by decide +kernel)

/-- The iff at this line. -/
theorem ownVerdict_iff_bareAddress :
    OwnVerdict bareAddress (-1) ↔ ¬ CutShort bareAddress (-1) :=
  ownVerdict_iff (s := LoadState.start barredBuffer initMemory)
    ⟨rfl, bareAddress, barredBuffer, initMemory, [], [], by decide, rfl⟩

end Yess
