import Mathlib.Control.Monad.Basic
import PostfixSheet.CommandLine.Report
import PostfixSheet.Proofs.SheetEquation
import PostfixSheet.Storage.FileTree

/-!
# Runs of the program beside the library

The program evaluates the sheet in one file into another by the same steps as the library, which loads the
one, calculates and saves the other. The two differ in where the dialect of the output comes from: the
program takes that of the input, the library goes by the extension of the output. So they do the same where
both extensions ask for one dialect. A run that cannot load its sheet ends before it writes anything.

* `SheetFile.evaluate` is the library's way from one file to another.
* `evalArguments` and `cacheArguments` are the arguments that ask the program for it.
* `CannotLoad` says why there is nothing to evaluate.

Results:
* `parse_evalArguments`, `parse_cacheArguments`: what these arguments ask for.
* `isOk_evaluate`: the program and the library take the same steps, in every monad with files.
* `runOn_evalArguments`: they succeed together and leave the same files.
* `evaluateOn_eq_ok_iff`: when the library succeeds, and that it saves the results of what it loaded.
* `runOn_of_cannotLoad`: a sheet that cannot be loaded leaves all files as they are and shows nothing.
* `run_agrees_with_library`: all of it, and that keeping values changes nothing.
-/

namespace PostfixSheet

/-! ## Arguments -/

/-- A path that can stand among the arguments as it is: it is not empty and does not begin with `-`. -/
def IsOperand (path : String) : Prop := path ≠ "" ∧ path.toList.head? ≠ some '-'

/-- The arguments that ask for the results of one file in another. -/
def evalArguments (input output : String) : List String := ["eval", input, "-o", output]

/-- The same arguments with the switch that keeps values, at each place where it can stand. -/
def cacheArguments (input output : String) : List (List String) :=
  [["eval", "--cache", input, "-o", output], ["eval", input, "--cache", "-o", output],
    ["eval", input, "-o", output, "--cache"]]

section Arguments

variable {input output : String} {rest : List String}

theorem IsOperand.isPlain {path : String} (h : IsOperand path) : Argument.isPlain path = true := by
  obtain ⟨-, hhead⟩ := h
  unfold Argument.isPlain
  split
  case h_1 heq =>
    rw [heq] at hhead
    exact absurd rfl hhead
  case h_2 => rfl

/-- The switch for the output takes the next argument. -/
theorem read_output (h : Argument.isPlain output = true) :
    Argument.read (Command.switches .evaluate) none ("-o" :: output :: rest) =
      .given .output output :: Argument.read (Command.switches .evaluate) none rest := by
  rw [Argument.read, if_neg (by decide), if_neg (by decide)]
  show Argument.read _ (some .output) (output :: rest) = _
  rw [Argument.read, if_pos h]

theorem read_cache :
    Argument.read (Command.switches .evaluate) none ("--cache" :: rest) =
      .given .cache "" :: Argument.read (Command.switches .evaluate) none rest := by
  rw [Argument.read, if_neg (by decide), if_neg (by decide)]
  rfl

open Request

/-- The first operand is the input. -/
theorem ofArguments_operand (h : IsOperand input) (switches : List (Switch × String))
    (items : List Argument) :
    ofArguments .evaluate ⟨none, switches⟩ (.operand input :: items) =
      ofArguments .evaluate ⟨some input, switches⟩ items := by
  have hgive : Taken.giveOperand ⟨none, switches⟩ input = .ok ⟨some input, switches⟩ := if_neg h.1
  rw [ofArguments, hgive]

/-- A switch that was not given before is taken. -/
theorem ofArguments_given {switch : Switch} {value : String} {taken : Taken}
    (hhelp : switch ≠ .help) (hversion : switch ≠ .version) (haccepts : accepts switch value = true)
    (hnew : taken.has switch = false) (items : List Argument) :
    ofArguments .evaluate taken (.given switch value :: items) =
      ofArguments .evaluate { taken with switches := (switch, value) :: taken.switches } items := by
  have hgive : taken.giveSwitch switch value =
      .ok { taken with switches := (switch, value) :: taken.switches } := by
    rw [Taken.giveSwitch, haccepts, hnew]
    rfl
  rw [ofArguments, hgive]
  · exact hhelp
  · exact hversion

theorem accepts_output (h : IsOperand output) : accepts .output output = true := bne_iff_ne.mpr h.1

/-- **The arguments ask for the results with all that is usual.** -/
theorem parse_evalArguments (hinput : IsOperand input) (houtput : IsOperand output) :
    Request.parse (evalArguments input output) =
      .ok (.evaluate input (some output) none .default .default) := by
  show ofArguments .evaluate ⟨none, []⟩
    (Argument.read (Command.switches .evaluate) none [input, "-o", output]) = _
  rw [Argument.read_operand hinput.isPlain, read_output houtput.isPlain, ofArguments_operand hinput,
    ofArguments_given (by decide) (by decide) (accepts_output houtput) rfl]
  rfl

/-- **With the switch they ask for the same with kept values.** -/
theorem parse_cacheArguments (hinput : IsOperand input) (houtput : IsOperand output) :
    ∀ arguments ∈ cacheArguments input output, Request.parse arguments =
      .ok (.evaluate input (some output) none .default .cache) := by
  have haccepts := accepts_output houtput
  simp only [cacheArguments, List.forall_mem_cons, List.not_mem_nil, false_implies, implies_true,
    and_true]
  refine ⟨?_, ?_, ?_⟩
  · show ofArguments .evaluate ⟨none, []⟩
      (Argument.read (Command.switches .evaluate) none ["--cache", input, "-o", output]) = _
    rw [read_cache, Argument.read_operand hinput.isPlain, read_output houtput.isPlain,
      ofArguments_given (by decide) (by decide) rfl rfl, ofArguments_operand hinput,
      ofArguments_given (by decide) (by decide) haccepts rfl]
    rfl
  · show ofArguments .evaluate ⟨none, []⟩
      (Argument.read (Command.switches .evaluate) none [input, "--cache", "-o", output]) = _
    rw [Argument.read_operand hinput.isPlain, read_cache, read_output houtput.isPlain,
      ofArguments_operand hinput, ofArguments_given (by decide) (by decide) rfl rfl,
      ofArguments_given (by decide) (by decide) haccepts rfl]
    rfl
  · show ofArguments .evaluate ⟨none, []⟩
      (Argument.read (Command.switches .evaluate) none [input, "-o", output, "--cache"]) = _
    rw [Argument.read_operand hinput.isPlain, read_output houtput.isPlain, read_cache,
      ofArguments_operand hinput, ofArguments_given (by decide) (by decide) haccepts rfl,
      ofArguments_given (by decide) (by decide) rfl rfl]
    rfl

end Arguments

/-! ## The same steps -/

section Steps

variable {m : Type → Type} [Monad m] [Files m] {input output : String}

/-- The library's way from one file to another: the sheet is loaded, calculated and saved. -/
def SheetFile.evaluate (input output : String) : m (Except StorageFault Unit) := do
  match ← SheetFile.load input with
  | .error fault => return .error fault
  | .ok sheet => SheetFile.save output (calculate sheet .default).results

/-- The bytes that the library saves to a path for a sheet. -/
def SheetFile.resultBytes (output : String) (sheet : Sheet) : List UInt8 :=
  Csv.write (.of (SheetFile.dialectOf output)) (calculate sheet .default).results

/-- Keeping values changes nothing in an evaluation. -/
theorem evaluate_policy (delimiter : Option Char) (marker : Csv.Marker) (out? : Option String)
    (policy other : Policy) :
    (Report.evaluate input out? delimiter marker policy : m Report) =
      Report.evaluate input out? delimiter marker other := by
  unfold Report.evaluate
  simp only [calculate_policy _ policy other]

/-- **The program takes the steps of the library**, in every monad with files: it ends with the status of
success exactly where the library does not fail. -/
theorem isOk_evaluate [LawfulMonad m] (h : Path.isTabbed input = Path.isTabbed output) :
    (fun report : Report => report.status == 0) <$>
        (Report.evaluate input (some output) none .default .default : m Report) =
      Except.isOk <$> (SheetFile.evaluate input output : m (Except StorageFault Unit)) := by
  have hdialect : SheetFile.dialectOf output = SheetFile.dialectOf input := by
    rw [SheetFile.dialectOf, SheetFile.dialectOf, h]
  rw [Report.evaluate, Report.dialectFor, SheetFile.evaluate, SheetFile.load, map_bind, map_bind]
  -- Both read with the dialect of the input, so they can only part where they write.
  congr 1
  funext loaded
  cases loaded with
  | error fault => rw [map_pure, map_pure]; rfl
  | ok sheet =>
    simp only [SheetFile.save, hdialect]
    rw [map_bind, map_eq_pure_bind]
    congr 1
    funext saved
    cases saved with
    | error fault => rw [map_pure]; rfl
    | ok done => rw [map_pure]; rfl

end Steps

/-! ## Runs on a tree of files -/

/-- What a run of the program shows, and the files that it leaves. -/
def runOn (tree : FileTree) (arguments : List String) : Report × FileTree :=
  (Report.run arguments : StateM FileTree Report).run tree

/-- How the library's way from one file to another ends, and the files that it leaves. -/
def evaluateOn (tree : FileTree) (input output : String) : Except StorageFault Unit × FileTree :=
  (SheetFile.evaluate input output : StateM FileTree (Except StorageFault Unit)).run tree

/-- Why there is nothing to evaluate: the delimiter is not ASCII, the file cannot be read, or it is no
text. -/
inductive CannotLoad (tree : FileTree) (delimiter : Option Char) (input : String) : Prop where
  | delimiter {c : Char} : delimiter = some c → 128 ≤ c.toNat → CannotLoad tree delimiter input
  | file {fault : FileFault} : tree.read input = .error fault → CannotLoad tree delimiter input
  | text {dialect : Csv.Dialect} {bytes : List UInt8} {place : Csv.BadText} :
    Report.dialectFor delimiter input = .ok dialect → tree.read input = .ok bytes →
    Csv.read (.of dialect) bytes = .error place → CannotLoad tree delimiter input

section Trees

variable {tree : FileTree} {arguments : List String} {input output : String} {out? : Option String}
  {delimiter : Option Char} {marker : Csv.Marker} {policy : Policy}

theorem runOn_of_parse {request : Request} (h : Request.parse arguments = .ok request) :
    runOn tree arguments = (Report.fulfil request : StateM FileTree Report).run tree := by
  rw [runOn, Report.run, h]

/-- Reading a sheet changes no file. -/
theorem run_readWith (options : Csv.ReadOptions) :
    (SheetFile.readWith options input : StateM FileTree (Except StorageFault Sheet)).run tree =
      (match tree.read input with
        | .error fault => .error (.file fault)
        | .ok bytes => (Csv.read options bytes).mapError .text, tree) := by
  have hread : (Files.read input : StateM FileTree _).run tree = (tree.read input, tree) := rfl
  rw [SheetFile.readWith, StateT.run_bind, hread]
  cases tree.read input <;> rfl

/-- Writing results changes the tree if it does not fail. -/
theorem run_writeWith (options : Csv.WriteOptions) (results : Results) :
    (SheetFile.writeWith options output results : StateM FileTree (Except StorageFault Unit)).run
        tree =
      match tree.write output (Csv.write options results) with
      | .error fault => (.error (.file fault), tree)
      | .ok written => (.ok (), written) := by
  have hwrite : (Files.write output (Csv.write options results) : StateM FileTree _).run tree =
      match tree.write output (Csv.write options results) with
      | .error fault => (.error fault, tree)
      | .ok written => (.ok (), written) := rfl
  rw [SheetFile.writeWith, StateT.run_bind, hwrite]
  cases tree.write output (Csv.write options results) <;> rfl

/-- **The program and the library succeed together and leave the same files.** -/
theorem runOn_evalArguments (tree : FileTree) (hinput : IsOperand input) (houtput : IsOperand output)
    (h : Path.isTabbed input = Path.isTabbed output) :
    ((runOn tree (evalArguments input output)).1.status = 0 ↔
        (evaluateOn tree input output).1 = .ok ()) ∧
      (runOn tree (evalArguments input output)).2 = (evaluateOn tree input output).2 := by
  have hok : ∀ result : Except StorageFault Unit, result.isOk = true ↔ result = .ok () := by
    intro result
    cases result with
    | error fault => constructor <;> intro hfault <;> cases hfault
    | ok done => exact ⟨fun _ => rfl, fun _ => rfl⟩
  have hrun : runOn tree (evalArguments input output) =
      (Report.evaluate input (some output) none .default .default : StateM FileTree Report).run
        tree := runOn_of_parse (parse_evalArguments hinput houtput)
  have hsteps : ((runOn tree (evalArguments input output)).1.status == 0,
        (runOn tree (evalArguments input output)).2) =
      ((evaluateOn tree input output).1.isOk, (evaluateOn tree input output).2) := by
    rw [hrun]
    exact congrArg (fun steps : StateM FileTree Bool => steps.run tree) (isOk_evaluate h)
  obtain ⟨hstatus, htree⟩ := Prod.mk.inj hsteps
  exact ⟨by rw [← hok, ← hstatus, beq_iff_eq], htree⟩

/-- **Keeping values changes nothing in a run.** -/
theorem runOn_cacheArguments (hinput : IsOperand input) (houtput : IsOperand output) :
    ∀ arguments ∈ cacheArguments input output,
      runOn tree arguments = runOn tree (evalArguments input output) := by
  intro arguments harguments
  rw [runOn_of_parse (parse_cacheArguments hinput houtput arguments harguments),
    runOn_of_parse (parse_evalArguments hinput houtput), Report.fulfil, Report.fulfil,
    evaluate_policy none .default (some output) .cache .default]

/-- The library's way from one file to another, by what is read and what is written. -/
theorem evaluateOn_eq (tree : FileTree) (input output : String) :
    evaluateOn tree input output =
      match tree.read input with
      | .error fault => (.error (.file fault), tree)
      | .ok bytes =>
        match Csv.read (.of (SheetFile.dialectOf input)) bytes with
        | .error place => (.error (.text place), tree)
        | .ok sheet =>
          match tree.write output (SheetFile.resultBytes output sheet) with
          | .error fault => (.error (.file fault), tree)
          | .ok written => (.ok (), written) := by
  rw [evaluateOn, SheetFile.evaluate, SheetFile.load, StateT.run_bind, run_readWith]
  cases tree.read input with
  | error fault => rfl
  | ok bytes =>
    cases hsheet : Csv.read (.of (SheetFile.dialectOf input)) bytes with
    | error place =>
      simp only [hsheet]
      rfl
    | ok sheet =>
      simp only [hsheet]
      exact run_writeWith (.of (SheetFile.dialectOf output)) (calculate sheet .default).results

/-- **The library succeeds exactly where the input can be read, is a text, and its results can be
written.** What is written are the results of what the input held before, even over the input itself. -/
theorem evaluateOn_eq_ok_iff {written : FileTree} :
    evaluateOn tree input output = (.ok (), written) ↔
      ∃ bytes sheet, tree.read input = .ok bytes ∧
        Csv.read (.of (SheetFile.dialectOf input)) bytes = .ok sheet ∧
        tree.write output (SheetFile.resultBytes output sheet) = .ok written := by
  rw [evaluateOn_eq]
  constructor
  · intro h
    split at h
    case h_1 => cases h
    case h_2 bytes hread =>
      split at h
      case h_1 => cases h
      case h_2 sheet hsheet =>
        split at h
        case h_1 => cases h
        case h_2 hwrite =>
          cases h
          exact ⟨bytes, sheet, hread, hsheet, hwrite⟩
  · rintro ⟨bytes, sheet, hread, hsheet, hwrite⟩
    simp only [hread, hsheet, hwrite]

/-- Where there is nothing to evaluate, reading fails with every dialect that the run may come to. -/
theorem exists_fault_of_cannotLoad {dialect : Csv.Dialect} (h : CannotLoad tree delimiter input)
    (hdialect : Report.dialectFor delimiter input = .ok dialect) :
    ∃ fault, (SheetFile.readWith (.of dialect) input :
      StateM FileTree (Except StorageFault Sheet)).run tree = (.error fault, tree) := by
  rw [run_readWith]
  cases h with
  | @delimiter c hc hrange =>
    rw [hc, Report.dialectFor, if_neg (Nat.not_lt.mpr hrange)] at hdialect
    cases hdialect
  | @file fault hread =>
    rw [hread]
    exact ⟨.file fault, rfl⟩
  | @text other bytes place hother hread htext =>
    rw [hdialect] at hother
    cases hother
    rw [hread]
    simp only [htext]
    exact ⟨.text place, rfl⟩

/-- **A sheet that cannot be loaded leaves all files as they are and shows nothing.** -/
theorem runOn_of_cannotLoad
    (hparse : Request.parse arguments = .ok (.evaluate input out? delimiter marker policy))
    (h : CannotLoad tree delimiter input) :
    ∃ report, runOn tree arguments = (report, tree) ∧ report.status = 1 ∧ report.stdout = [] := by
  rw [runOn_of_parse hparse, Report.fulfil, Report.evaluate]
  cases hdialect : Report.dialectFor delimiter input with
  | error c => exact ⟨Report.badDelimiter c, rfl, rfl, rfl⟩
  | ok dialect =>
    obtain ⟨fault, hload⟩ := exists_fault_of_cannotLoad h hdialect
    refine ⟨Report.storageFailure "Failed to open" input fault [], ?_, rfl, rfl⟩
    simp only
    rw [StateT.run_bind, hload]
    rfl

end Trees

/-! ## The whole of a run -/

/-- **The program does what the library does, and a sheet that cannot be loaded touches nothing.** Asked for
the results of one file in another, both with the extension `tsv` or both without, the program succeeds
exactly where the library does and leaves the same files. The library succeeds exactly where the input can be
read, is a text, and its results can be written; then the output holds the results of what the input held
before, also where it is the same file. Keeping values changes nothing. And for all arguments that ask for
results: where the delimiter is not ASCII, or the input cannot be read or is no text, all files stay as they
are and nothing is shown. -/
theorem run_agrees_with_library (tree : FileTree) :
    (∀ input output : String, IsOperand input → IsOperand output →
      Path.isTabbed input = Path.isTabbed output →
      ((runOn tree (evalArguments input output)).1.status = 0 ↔
        (evaluateOn tree input output).1 = .ok ()) ∧
      (runOn tree (evalArguments input output)).2 = (evaluateOn tree input output).2 ∧
      (∀ written, evaluateOn tree input output = (.ok (), written) ↔
        ∃ bytes sheet, tree.read input = .ok bytes ∧
          Csv.read (.of (SheetFile.dialectOf input)) bytes = .ok sheet ∧
          tree.write output (SheetFile.resultBytes output sheet) = .ok written ∧
          written.read output = .ok (SheetFile.resultBytes output sheet)) ∧
      ∀ arguments ∈ cacheArguments input output,
        runOn tree arguments = runOn tree (evalArguments input output)) ∧
    ∀ (arguments : List String) (input : String) (out? : Option String) (delimiter : Option Char)
      (marker : Csv.Marker) (policy : Policy),
      Request.parse arguments = .ok (.evaluate input out? delimiter marker policy) →
      CannotLoad tree delimiter input →
      ∃ report, runOn tree arguments = (report, tree) ∧ report.status = 1 ∧ report.stdout = [] := by
  constructor
  · intro input output hinput houtput h
    obtain ⟨hstatus, htree⟩ := runOn_evalArguments tree hinput houtput h
    refine ⟨hstatus, htree, fun written => ?_, runOn_cacheArguments hinput houtput⟩
    rw [evaluateOn_eq_ok_iff]
    constructor
    · rintro ⟨bytes, sheet, hread, hsheet, hwrite⟩
      exact ⟨bytes, sheet, hread, hsheet, hwrite, FileTree.read_write hwrite⟩
    · rintro ⟨bytes, sheet, hread, hsheet, hwrite, -⟩
      exact ⟨bytes, sheet, hread, hsheet, hwrite⟩
  · intro arguments input out? delimiter marker policy
    exact runOn_of_cannotLoad

/-- A file that is evaluated over itself with kept values, and a delimiter that is not ASCII. -/
theorem run_agrees_with_library_in_place :
    let tree := (FileTree.empty ["w"]).put ["w", "a.csv"] (.file (Utf8.encode "3,A1 2 *\n".toList))
    (runOn tree ["eval", "a.csv", "--cache", "-o", "a.csv"]).2 = (evaluateOn tree "a.csv" "a.csv").2 ∧
    (evaluateOn tree "a.csv" "a.csv").2.read "a.csv" = .ok (Utf8.encode "3,6\n".toList) ∧
    ∃ report, runOn tree ["eval", "a.csv", "-d", "é"] = (report, tree) ∧ report.status = 1 ∧
      report.stdout = [] := by
  intro tree
  obtain ⟨hsame, hfailed⟩ := run_agrees_with_library tree
  obtain ⟨-, hfiles, -, hcache⟩ := hsame "a.csv" "a.csv" ⟨by decide, by decide⟩ ⟨by decide, by decide⟩ rfl
  refine ⟨?_, by decide +kernel, ?_⟩
  · rw [hcache _ (by decide), hfiles]
  · exact hfailed _ "a.csv" none (some 'é') .default .default (by decide +kernel)
      (.delimiter rfl (by decide))

end PostfixSheet
