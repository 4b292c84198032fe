import Yess.Loader.ValidLine

/-!
# The addresses a load writes

Each record with data appends a run of consecutive addresses to the ones written
before.  The loader checks that a run does not start below the last address
written; it may start at it.
-/

namespace Yess

open Lib.CString Lib.ByteStore

def addressRun (address : Int) (count : Nat) : List Int :=
  (List.range count).map fun offset => address + (offset : Nat)

theorem addressRun_succ (address : Int) (count : Nat) :
    addressRun address (count + 1) = address :: addressRun (address + 1) count := by
  unfold addressRun
  rw [List.range_succ_eq_map, List.map_cons, List.map_map]
  congr 1
  · simp
  · refine List.map_congr_left fun offset _ => ?_
    simp only [Function.comp, Nat.succ_eq_add_one, Nat.cast_add, Nat.cast_one]
    omega

theorem addressRun_pairwise (address : Int) (count : Nat) :
    (addressRun address count).Pairwise (· < ·) := by
  unfold addressRun
  rw [List.pairwise_map]
  exact List.pairwise_lt_range.imp fun below => by omega

theorem inRange_of_putByte {memory : Memory} {address : Int} {data : Byte}
    (stored : (putByte memory address data).2 = false) : InRange 65536 address := by
  have view := congrArg Prod.snd (putByte_eq memory address data)
  unfold writeByte at view
  by_contra outside
  rw [if_neg outside] at view
  exact Bool.false_ne_true (stored.symm.trans view)

theorem storeData_stored (buf : Buffer) {count : Nat} {byteNumber : Nat} {loop after : ByteLoop}
    (stored : storeData buf count byteNumber loop = (after, false)) :
    after.stored = loop.stored ++ addressRun loop.byteAddress count ∧
      after.byteAddress = loop.byteAddress + count ∧ (count ≠ 0 → 0 ≤ loop.byteAddress) := by
  induction count generalizing byteNumber loop with
  | zero =>
      obtain rfl := congrArg Prod.fst stored
      simp [addressRun, storeData]
  | succ count ih =>
      rw [storeData] at stored
      dsimp only at stored
      split at stored
      · exact nomatch congrArg Prod.snd stored
      · split at stored
        · exact nomatch congrArg Prod.snd stored
        · case isFalse inside =>
            obtain ⟨list, address, -⟩ := ih stored
            refine ⟨?_, ?_, fun _ => ?_⟩
            · rw [list, addressRun_succ, List.append_assoc]
              rfl
            · rw [address]
              simp only [Nat.cast_add, Nat.cast_one]
              omega
            · exact (inRange_of_putByte (Bool.not_eq_true _ ▸ inside)).1

theorem le_of_validateaddress {line : Buffer} {prev_addr : Int}
    (valid : validateaddress line recordLen prev_addr = true) :
    prev_addr = -1 ∨ prev_addr ≤ (grabAddress line recordLen).1 := by
  unfold validateaddress at valid
  by_cases first : prev_addr = -1
  · exact Or.inl first
  · refine Or.inr (Int.not_lt.mp fun below => ?_)
    rw [if_neg first, if_pos (Or.inr below), ite_self] at valid
    exact Bool.false_ne_true valid

def GivesData (line : Buffer) : Prop := hasaddress line = true ∧ hasdata line recordLen ≠ 0

instance (line : Buffer) : Decidable (GivesData line) := inferInstanceAs (Decidable (_ ∧ _))

/-- What a line that does not fail does to the addresses: nothing, or it appends
the run that its address and its number of bytes give. -/
theorem loadLine_cases {s next : LoadState} {record : Text}
    (loaded : loadLine s record = .ok next) :
    (¬ GivesData (strlcpy s.buf record) ∧ next.stored = s.stored ∧ next.prevaddr = s.prevaddr) ∨
      ∃ address count, GivesData (strlcpy s.buf record) ∧
        address = (grabAddress (strlcpy s.buf record) recordLen).1 ∧
        next.stored = s.stored ++ addressRun address (count + 1) ∧
        next.prevaddr = address + count ∧ 0 ≤ address ∧
        (s.prevaddr = -1 ∨ s.prevaddr ≤ address) := by
  unfold loadLine at loaded
  dsimp only at loaded
  split_ifs at loaded with invalid hasAddress noAddress bytes failed
  · obtain rfl := Except.ok.inj loaded
    refine Or.inr ⟨_, hasdata (strlcpy s.buf record) recordLen - 1, ⟨hasAddress, bytes⟩, rfl, ?_⟩
    have count : hasdata (strlcpy s.buf record) recordLen - 1 + 1 =
        hasdata (strlcpy s.buf record) recordLen := Nat.succ_pred_eq_of_ne_zero bytes
    obtain ⟨list, address, lower⟩ := storeData_stored (strlcpy s.buf record)
      (Prod.ext rfl (Bool.not_eq_true _ ▸ failed))
    refine ⟨?_, ?_, lower bytes, ?_⟩
    · rw [count]
      exact list
    · dsimp only
      rw [address]
      dsimp only
      omega
    · have valid : validline (strlcpy s.buf record) recordLen s.prevaddr = true := by
        simpa using invalid
      exact le_of_validateaddress (dataLine_of_validline valid hasAddress).address
  · obtain rfl := Except.ok.inj loaded
    exact Or.inl ⟨fun gives => bytes gives.2, rfl, rfl⟩
  · obtain rfl := Except.ok.inj loaded
    exact Or.inl ⟨fun gives => hasAddress gives.1, rfl, rfl⟩

/-! ## Whole files -/

/-- The line gives data, and its first byte goes to the last address written. -/
def StartsAtLastByte (s : LoadState) (record : Text) : Prop :=
  GivesData (strlcpy s.buf record) ∧ s.prevaddr ≠ -1 ∧
    (grabAddress (strlcpy s.buf record) recordLen).1 = s.prevaddr

def NoneStartsAtLastByte : LoadState → List Text → Prop
  | _, [] => True
  | s, record :: rest =>
      ¬ StartsAtLastByte s record ∧
        ∀ next, loadLine s record = .ok next → NoneStartsAtLastByte next rest

/-- `prevaddr` is the last address written, or the sentinel before the first one. -/
structure Tracked (s : LoadState) : Prop where
  last : s.prevaddr = s.stored.getLast?.getD (-1)
  nonneg : ∀ address ∈ s.stored, 0 ≤ address

theorem addressRun_getLast? (address : Int) (count : Nat) :
    (addressRun address (count + 1)).getLast? = some (address + count) := by
  simp [addressRun, List.range_succ]

theorem le_of_mem_addressRun {address other : Int} {count : Nat}
    (member : other ∈ addressRun address count) : address ≤ other := by
  obtain ⟨offset, -, rfl⟩ := List.mem_map.mp member
  omega

theorem tracked_start (buf : Buffer) (memory : Memory) : Tracked (LoadState.start buf memory) :=
  ⟨rfl, fun _ member => nomatch member⟩

theorem Tracked.loadLine {s next : LoadState} {record : Text} (tracked : Tracked s)
    (loaded : loadLine s record = .ok next) : Tracked next := by
  rcases loadLine_cases loaded with ⟨-, stored, prevaddr⟩ |
    ⟨address, count, -, -, stored, prevaddr, lower, -⟩
  · exact ⟨by rw [prevaddr, stored, tracked.last], by rw [stored]; exact tracked.nonneg⟩
  · refine ⟨?_, ?_⟩
    · rw [prevaddr, stored, List.getLast?_append, addressRun_getLast?]
      rfl
    · rw [stored]
      intro other member
      rcases List.mem_append.mp member with old | new
      · exact tracked.nonneg other old
      · exact Int.le_trans lower (le_of_mem_addressRun new)

theorem le_getLast_of_pairwise {stored : List Int} {last : Int}
    (increasing : stored.Pairwise (· < ·)) (isLast : stored.getLast? = some last) :
    ∀ address ∈ stored, address ≤ last := by
  obtain ⟨front, rfl⟩ := List.getLast?_eq_some_iff.mp isLast
  intro address member
  rcases List.mem_append.mp member with before | same
  · exact Int.le_of_lt
      ((List.pairwise_append.mp increasing).2.2 address before last List.mem_cons_self)
  · rw [List.mem_singleton.mp same]

/-- One line keeps the addresses increasing unless it starts at the last one. -/
theorem loadLine_pairwise_iff {s next : LoadState} {record : Text} (tracked : Tracked s)
    (increasing : s.stored.Pairwise (· < ·)) (loaded : loadLine s record = .ok next) :
    next.stored.Pairwise (· < ·) ↔ ¬ StartsAtLastByte s record := by
  rcases loadLine_cases loaded with ⟨noData, stored, -⟩ |
    ⟨address, count, gives, isAddress, stored, -, lower, inOrder⟩
  · rw [stored]
    exact iff_of_true increasing fun starts => noData starts.1
  · rw [stored, List.pairwise_append]
    have first : address ∈ addressRun address (count + 1) := by
      rw [addressRun_succ]
      exact List.mem_cons_self
    cases isLast : s.stored.getLast? with
    | none =>
        have sentinel : s.prevaddr = -1 := by rw [tracked.last, isLast]; rfl
        rw [List.getLast?_eq_none_iff] at isLast
        rw [isLast]
        refine iff_of_true ⟨List.Pairwise.nil, addressRun_pairwise _ _, nofun⟩ ?_
        exact fun starts => starts.2.1 sentinel
    | some last =>
        have prevaddr : s.prevaddr = last := by rw [tracked.last, isLast]; rfl
        have member : last ∈ s.stored := List.mem_of_getLast? isLast
        have notSentinel : s.prevaddr ≠ -1 := by
          have bound := tracked.nonneg last member
          omega
        constructor
        · rintro ⟨-, -, apart⟩ starts
          have below := apart last member address first
          have same := starts.2.2
          omega
        · intro starts
          refine ⟨increasing, addressRun_pairwise _ _, fun old oldMember new newMember => ?_⟩
          have different : address ≠ s.prevaddr := fun same =>
            starts ⟨gives, notSentinel, isAddress ▸ same⟩
          have oldBound := le_getLast_of_pairwise increasing isLast old oldMember
          have newBound := le_of_mem_addressRun newMember
          have notBelow := inOrder.resolve_left notSentinel
          omega

theorem loadLines_stored {s final : LoadState} {records : List Text}
    (loaded : loadLines s records = .ok final) : ∃ more, final.stored = s.stored ++ more := by
  induction records generalizing s with
  | nil =>
      obtain rfl := Except.ok.inj loaded
      exact ⟨[], (List.append_nil _).symm⟩
  | cons record rest ih =>
      obtain ⟨next, line, others⟩ := loadLines_cons loaded
      obtain ⟨more, appended⟩ := ih others
      rcases loadLine_cases line with ⟨-, stored, -⟩ | ⟨address, count, -, -, stored, -⟩
      · exact ⟨more, by rw [appended, stored]⟩
      · exact ⟨addressRun address (count + 1) ++ more, by
          rw [appended, stored, List.append_assoc]⟩

/-- A file that does not fail leaves increasing addresses if and only if none of
its lines starts at the last address written before it. -/
theorem loadLines_pairwise_iff {s final : LoadState} {records : List Text} (tracked : Tracked s)
    (increasing : s.stored.Pairwise (· < ·)) (loaded : loadLines s records = .ok final) :
    final.stored.Pairwise (· < ·) ↔ NoneStartsAtLastByte s records := by
  induction records generalizing s with
  | nil =>
      obtain rfl := Except.ok.inj loaded
      exact iff_of_true increasing trivial
  | cons record rest ih =>
      obtain ⟨next, line, others⟩ := loadLines_cons loaded
      have step := loadLine_pairwise_iff tracked increasing line
      by_cases starts : StartsAtLastByte s record
      · refine iff_of_false (fun sorted => ?_) fun none => none.1 starts
        obtain ⟨more, appended⟩ := loadLines_stored others
        rw [appended] at sorted
        exact step.mp (List.pairwise_append.mp sorted).1 starts
      · rw [ih (tracked.loadLine line) (step.mpr starts) others]
        constructor
        · intro none
          refine ⟨starts, ?_⟩
          intro other same
          obtain rfl := Except.ok.inj (line.symm.trans same)
          exact none
        · intro none
          exact none.2 next line

/-- For every file that `load` accepts: the addresses of the bytes stored are
strictly increasing if and only if no record with data starts at the last address
written before it. -/
theorem load_stored_pairwise_iff (fileName file : Text) (buf : Buffer) (memory : Memory)
    (accepted : (load fileName (some file) buf memory).result = true) :
    (load fileName (some file) buf memory).stored.Pairwise (· < ·) ↔
      NoneStartsAtLastByte (LoadState.start buf memory) (getlines file) := by
  obtain ⟨validName, final, loaded⟩ := exists_of_load accepted
  rw [load_of_ok validName loaded]
  exact loadLines_pairwise_iff (tracked_start buf memory) List.Pairwise.nil loaded

/-- Two records for address zero. -/
def sameAddress : Text :=
  ascii "  0x000: 00           |" ++ [newline] ++ ascii "  0x000: 01           |" ++ [newline]

/-- Both records are accepted, and the second one overwrites the byte of the first. -/
theorem load_stored_sameAddress :
    (load (ascii "a.yo") (some sameAddress) (fun _ => nul) initMemory).result = true ∧
      ¬ (load (ascii "a.yo") (some sameAddress) (fun _ => nul) initMemory).stored.Pairwise
        (· < ·) := by
  decide +kernel

/-- The iff at this file. -/
theorem load_stored_pairwise_iff_sameAddress :
    (load (ascii "a.yo") (some sameAddress) (fun _ => nul) initMemory).stored.Pairwise (· < ·) ↔
      NoneStartsAtLastByte (LoadState.start (fun _ => nul) initMemory) (getlines sameAddress) :=
  load_stored_pairwise_iff (ascii "a.yo") sameAddress (fun _ => nul) initMemory
    (by decide +kernel)

end Yess
