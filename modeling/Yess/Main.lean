import Mathlib.Data.List.Induction
import Yess.Loader
import Yess.MemLoader
import Yess.Output

/-!
# Main program

`main.c`: the options, the two loaders, the main loop and the final dump.
`getopt` itself is not modelled: it hands over the options one after another, and
the operands that are left.
-/

namespace Yess

open Lib.CString Lib.Printf

/-- What `getopt` returns for one option, with `optarg`; `other` is an unknown option or
one whose argument is missing. -/
inductive Opt where
  | d
  | f (optarg : Text)
  | i (optarg : Text)
  | m
  | s
  | u
  | v
  | other
  deriving DecidableEq

/-- The variables of `main` that the options set. -/
structure Flags where
  dflag : Bool
  fflag : Bool
  iflag : Bool
  mflag : Bool
  sflag : Bool
  vflag : Bool
  sourcefile : Option Text
  deriving DecidableEq

/-- The variables before the first option; `sourcefile` is not initialised. -/
def Flags.start : Flags := ⟨false, false, false, false, false, false, none⟩

/-- One option, or `none` where the program prints its usage and exits. -/
def parseOption (flags : Flags) : Opt → Option Flags
  | .d => some { flags with dflag := true }
  | .f optarg =>
      if flags.iflag then none else some { flags with sourcefile := some optarg, fflag := true }
  | .i optarg =>
      if flags.fflag || flags.mflag then none
      else some { flags with sourcefile := some optarg, iflag := true }
  | .m => if flags.iflag then none else some { flags with mflag := true }
  | .s => some { flags with sflag := true }
  | .u => none
  | .v => some { flags with vflag := true }
  | .other => none

def parseOptions (options : List Opt) (operands : List Text) : Option Flags :=
  match options.foldlM parseOption Flags.start with
  | none => none
  | some flags =>
      if operands.length > 0 ∨ flags.sourcefile = none ∨ (!flags.fflag && !flags.iflag) = true then
        none
      else some flags

/-- `verbosity`: debugging output is the most, with or without `-v`. -/
def Flags.verbosity (flags : Flags) : Nat :=
  if flags.dflag then 2 else if flags.vflag then 1 else 0

/-- How the program ends: its exit status, and what it has printed to standard output. -/
structure Outcome where
  status : Nat
  stdout : Text

/-- The text of every file that can be opened, by its name. -/
abbrev Files := Text → Option Text

/-- The dump behind the loop, if it is asked for and nothing has been dumped before. -/
def finalDump (flags : Flags) (last : Loop) : Text :=
  if (flags.sflag && !last.hasdumped) || (decide (flags.verbosity > 0) && !last.hasdumped) then
    dumpState last.state
  else []

def totalClockCycles (clockCount : Word) : Text :=
  printf "\nTotal clock cycles = %d\n" [clockCount.toNat]

/-- The main loop and what is printed behind it; `before` has been printed already. -/
def runProgram (fuel : Nat) (u : Undetermined) (memory : Memory) (flags : Flags) (before : Text) :
    Option Outcome :=
  (printingLoop fuel ⟨Loop.start (setupyess u memory), []⟩).map fun last =>
    { status := 0
      stdout := before ++ (last.printed.flatMap Piece.text ++
        (finalDump flags last.loop ++ totalClockCycles last.loop.clockCount)) }

/-- The program, for at most `fuel` passes of its loop.  `u` and `buf` are what the
source leaves undetermined. -/
def main (fuel : Nat) (u : Undetermined) (buf : Buffer) (files : Files) (options : List Opt)
    (operands : List Text) : Option Outcome :=
  match parseOptions options operands with
  | none => some ⟨1, []⟩
  | some flags =>
      let sourcefile := flags.sourcefile.getD []
      let loaded :=
        if flags.fflag then load sourcefile (files sourcefile) buf initMemory
        else ⟨true, initMemory, [], []⟩
      if !loaded.result then
        some ⟨1, loaded.printed ++ if flags.sflag then dumpMemory loaded.memory else []⟩
      else if flags.mflag then some ⟨0, loaded.printed ++ dumpMemoryImage loaded.memory⟩
      else
        let image :=
          if flags.iflag then
            MemLoader.loadMemImage sourcefile (files sourcefile) loaded.memory
          else ⟨true, loaded.memory, []⟩
        if !image.result then some ⟨1, loaded.printed ++ image.printed⟩
        else runProgram fuel u image.memory flags (loaded.printed ++ image.printed)

/-! ## The options -/

def Opt.isF : Opt → Bool
  | f _ => true
  | _ => false

def Opt.isI : Opt → Bool
  | i _ => true
  | _ => false

def Opt.optarg? : Opt → Option Text
  | f optarg => some optarg
  | i optarg => some optarg
  | _ => none

/-- The variables that a list of options sets, wherever each option stands in it: only
of the names the last one counts. -/
def Flags.of (options : List Opt) : Flags where
  dflag := options.contains .d
  fflag := options.any Opt.isF
  iflag := options.any Opt.isI
  mflag := options.contains .m
  sflag := options.contains .s
  vflag := options.contains .v
  sourcefile := (options.filterMap Opt.optarg?).getLast?

/-- The options are known ones, and a memory image goes neither with an object file nor
with the output of an image. -/
def Compatible (options : List Opt) : Prop :=
  .u ∉ options ∧ .other ∉ options ∧
    ¬ (options.any Opt.isI = true ∧ (options.any Opt.isF = true ∨ .m ∈ options))

instance (options : List Opt) : Decidable (Compatible options) :=
  inferInstanceAs (Decidable (_ ∧ _))

theorem parseOption_of {options : List Opt} (compatible : Compatible options) (option : Opt) :
    parseOption (Flags.of options) option =
      if Compatible (options ++ [option]) then some (Flags.of (options ++ [option])) else none := by
  obtain ⟨noU, noOther, apart⟩ := compatible
  cases option with
  | d =>
      simpa [parseOption, Flags.of, Compatible, Opt.isF, Opt.isI, Opt.optarg?, noU, noOther]
        using apart
  | s =>
      simpa [parseOption, Flags.of, Compatible, Opt.isF, Opt.isI, Opt.optarg?, noU, noOther]
        using apart
  | v =>
      simpa [parseOption, Flags.of, Compatible, Opt.isF, Opt.isI, Opt.optarg?, noU, noOther]
        using apart
  | u => simp [parseOption, Compatible]
  | other => simp [parseOption, Compatible]
  | f optarg =>
      by_cases image : options.any Opt.isI = true
      · have conflict : ¬ Compatible (options ++ [.f optarg]) := fun compatible =>
          compatible.2.2 ⟨by simp [image], by simp [Opt.isF]⟩
        rw [if_neg conflict]
        exact if_pos image
      · have compatible : Compatible (options ++ [.f optarg]) := by
          refine ⟨by simpa using noU, by simpa using noOther, fun conflict => image ?_⟩
          simpa [Opt.isI] using conflict.1
        rw [if_pos compatible]
        refine (if_neg image).trans ?_
        simp [Flags.of, Opt.isF, Opt.isI, Opt.optarg?]
  | m =>
      by_cases image : options.any Opt.isI = true
      · have conflict : ¬ Compatible (options ++ [.m]) := fun compatible =>
          compatible.2.2 ⟨by simp [image], by simp⟩
        rw [if_neg conflict]
        exact if_pos image
      · have compatible : Compatible (options ++ [.m]) := by
          refine ⟨by simpa using noU, by simpa using noOther, fun conflict => image ?_⟩
          simpa [Opt.isI] using conflict.1
        rw [if_pos compatible]
        refine (if_neg image).trans ?_
        simp [Flags.of, Opt.isF, Opt.isI, Opt.optarg?]
  | i optarg =>
      by_cases taken : options.any Opt.isF = true ∨ .m ∈ options
      · have conflict : ¬ Compatible (options ++ [.i optarg]) := fun compatible =>
          compatible.2.2 ⟨by simp [Opt.isI], by simpa [Opt.isF] using taken⟩
        rw [if_neg conflict]
        exact if_pos (by simpa [Flags.of] using taken)
      · have compatible : Compatible (options ++ [.i optarg]) := by
          refine ⟨by simpa using noU, by simpa using noOther, fun conflict => taken ?_⟩
          simpa [Opt.isF] using conflict.2
        rw [if_pos compatible]
        refine (if_neg (by simpa [Flags.of] using taken)).trans ?_
        simp [Flags.of, Opt.isF, Opt.isI, Opt.optarg?]

/-- Options in front of a compatible list are compatible. -/
theorem Compatible.of_append {options : List Opt} {option : Opt}
    (compatible : Compatible (options ++ [option])) : Compatible options := by
  obtain ⟨noU, noOther, apart⟩ := compatible
  refine ⟨fun member => noU (List.mem_append_left _ member),
    fun member => noOther (List.mem_append_left _ member), fun conflict => apart ⟨?_, ?_⟩⟩
  · rw [List.any_append, conflict.1, Bool.true_or]
  · rcases conflict.2 with object | image
    · left
      rw [List.any_append, object, Bool.true_or]
    · exact Or.inr (List.mem_append_left _ image)

theorem foldlM_parseOption (options : List Opt) :
    options.foldlM parseOption Flags.start =
      if Compatible options then some (Flags.of options) else none := by
  induction options using List.reverseRecOn with
  | nil => rfl
  | append_singleton options option ih =>
      rw [List.foldlM_append, ih]
      by_cases compatible : Compatible options
      · rw [if_pos compatible, ← parseOption_of compatible option]
        change (parseOption (Flags.of options) option >>= fun flags => some flags) = _
        exact Option.bind_fun_some _
      · rw [if_neg compatible, if_neg fun longer => compatible longer.of_append]
        rfl

theorem sourcefile_eq_none_iff (options : List Opt) :
    (Flags.of options).sourcefile = none ↔
      (!(Flags.of options).fflag && !(Flags.of options).iflag) = true := by
  rw [Bool.and_eq_true, Bool.not_eq_true', Bool.not_eq_true']
  change (options.filterMap Opt.optarg?).getLast? = none ↔
    options.any Opt.isF = false ∧ options.any Opt.isI = false
  rw [List.getLast?_eq_none_iff, List.filterMap_eq_nil_iff, List.any_eq_false, List.any_eq_false,
    ← forall₂_and]
  refine forall₂_congr fun option _ => ?_
  cases option <;> simp [Opt.optarg?, Opt.isF, Opt.isI]

/-- What is accepted has no operand, compatible options, and a file. -/
theorem of_parseOptions {options : List Opt} {operands : List Text} {flags : Flags}
    (accepted : parseOptions options operands = some flags) :
    operands = [] ∧ Compatible options ∧ (Flags.of options).sourcefile ≠ none ∧
      Flags.of options = flags := by
  unfold parseOptions at accepted
  rw [foldlM_parseOption] at accepted
  by_cases compatible : Compatible options
  · rw [if_pos compatible] at accepted
    simp only [← sourcefile_eq_none_iff, or_self, gt_iff_lt, List.length_pos_iff] at accepted
    split at accepted
    · cases accepted
    · case isFalse kept =>
        obtain ⟨noOperand, file⟩ := not_or.mp kept
        exact ⟨not_not.mp noOperand, compatible, file, Option.some.inj accepted⟩
  · rw [if_neg compatible] at accepted
    cases accepted

/-- What the program accepts, and what it makes of it: no operand, options that are
compatible in whatever order they stand, and one of them that names a file. -/
theorem parseOptions_eq_some_iff (options : List Opt) (operands : List Text) (flags : Flags) :
    parseOptions options operands = some flags ↔
      operands = [] ∧ Compatible options ∧ (Flags.of options).sourcefile ≠ none ∧
        Flags.of options = flags := by
  constructor
  · exact of_parseOptions
  · rintro ⟨rfl, compatible, file, same⟩
    have kept : ¬ ([] ≠ ([] : List Text) ∨ (Flags.of options).sourcefile = none) :=
      not_or.mpr ⟨not_not.mpr rfl, file⟩
    unfold parseOptions
    rw [foldlM_parseOption, if_pos compatible]
    simp only [← sourcefile_eq_none_iff, or_self, gt_iff_lt, List.length_pos_iff]
    rw [← same]
    exact if_neg kept

end Yess
