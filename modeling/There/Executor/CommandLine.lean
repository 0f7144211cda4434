import There.Executor.Simple
import There.Executor.Ssh
import There.Plan.Visitor
import There.Shell.SimpleCommand

/-!
# What the remote shell makes of a command line

The SSH executor hands two kinds of lines to the remote shell: the words of a
task's command joined with blanks, and the check of an ensure with its argument
between double quotes. A line is good when the shell must read it as one simple
command with the intended words.

Neither kind of line is quoted for the shell, so both are good for some words
only. The words are characterised exactly.
-/

namespace There

section Posix

/-- `shell_words::split` follows the quoting rules of the shell. -/
structure FollowsPosix (split : ShellSplit) : Prop where
  words : ∀ line ws, Shell.split line = some ws → split line = .ok ws
  error : ∀ line, Shell.split line = none → ∃ e, split line = .error e

/-- The splitter that follows these rules. -/
def posixSplit : ShellSplit := fun line =>
  match Shell.split line with
  | some ws => .ok ws
  | none => .error (.msg "missing closing quote")

theorem followsPosix_posixSplit : FollowsPosix posixSplit where
  words := fun line ws h => by simp [posixSplit, h]
  error := fun line h => ⟨_, by rw [posixSplit, h]⟩

end Posix

/-- The remote shell runs the argument vector that a local run passes to the process:
the line splits back into the command's words, the shell reads it as one simple
command with these words, and a local run of the task starts just them. -/
structure ArgvPreserved (split : ShellSplit) (planned : PlannedTask) : Prop where
  resplit : split (Request.command planned).line = .ok planned.command
  remote : Shell.simpleCommand (Request.command planned).line = some planned.command
  machine : ∀ host : LocalTask, host.Reaches planned →
    commands (Effect.finalState (SimpleExecutor.executeTask planned host (.fresh none))).events =
      [planned.command]

/-- The argument vector of a planned task survives the way to the remote shell exactly
when all of its words are plain to the shell and the first names a command. -/
theorem argvPreserved_iff (split : ShellSplit) (posix : FollowsPosix split)
    (planned : PlannedTask) :
    ArgvPreserved split planned ↔ Shell.PlainArgv planned.command := by
  constructor
  · intro h
    exact Shell.simpleCommand_intercalate.mp h.remote
  · intro plain
    refine ⟨?_, Shell.simpleCommand_intercalate.mpr plain, fun host reaches => ?_⟩
    · exact posix.words _ _ (Shell.split_intercalate plain.plain)
    · exact (SimpleExecutor.executeTask_emits planned host).fresh.1.reached reaches

theorem argvPreserved_echo :
    ArgvPreserved posixSplit ⟨"test command", ["echo", "hello"], [.exeExists "echo"], []⟩ :=
  (argvPreserved_iff posixSplit followsPosix_posixSplit _).mpr (by decide)

/-- A plan of the sample kind, whose only word to print holds a blank. -/
def helloWorld : TaskSet := ⟨"test", [.command "test command" "echo 'hello world!'" ["localhost"]]⟩

theorem argv_not_preserved :
    FollowsPosix posixSplit ∧ ∃ planned, helloWorld.plan posixSplit = .ok ⟨"test", [planned]⟩ ∧
      ¬ ArgvPreserved posixSplit planned := by
  refine ⟨followsPosix_posixSplit, ⟨"test command", ["echo", "hello world!"], [.exeExists "echo"],
    ["localhost"]⟩, ?_, fun h => ?_⟩
  · decide +kernel
  · exact absurd h.remote (by decide)

/-- The words that the check of an ensure is meant to have. -/
def Ensure.words : Ensure → List String
  | .directoryDoesntExist path => ["test", "-d", path]
  | .directoryExists path => ["test", "-d", path]
  | .fileDoesntExist path => ["test", "-f", path]
  | .fileExists path => ["test", "-f", path]
  | .exeExists exe => ["which", exe]

/-- The path or the executable that an ensure carries. -/
def Ensure.argument : Ensure → String
  | .directoryDoesntExist path => path
  | .directoryExists path => path
  | .fileDoesntExist path => path
  | .fileExists path => path
  | .exeExists exe => exe

/-- The words in front of the argument. -/
def Ensure.checkWords : Ensure → List String
  | .directoryDoesntExist _ => ["test", "-d"]
  | .directoryExists _ => ["test", "-d"]
  | .fileDoesntExist _ => ["test", "-f"]
  | .fileExists _ => ["test", "-f"]
  | .exeExists _ => ["which"]

theorem plainArgv_checkWords (ensure : Ensure) : Shell.PlainArgv ensure.checkWords := by
  cases ensure <;> simp only [Ensure.checkWords] <;> decide

theorem checkLine_eq (ensure : Ensure) :
    ensure.checkLine = Shell.quoteLast ensure.checkWords ensure.argument := by
  cases ensure <;> rfl

theorem words_eq (ensure : Ensure) : ensure.words = ensure.checkWords ++ [ensure.argument] := by
  cases ensure <;> rfl

/-- The check of an ensure is read as intended exactly when double quotes protect its
argument. -/
theorem checkLine_iff (ensure : Ensure) :
    Shell.simpleCommand ensure.checkLine = some ensure.words ↔
      Shell.inert ensure.argument.toList ∧ '\x00' ∉ ensure.argument.toList := by
  rw [checkLine_eq, words_eq]
  exact Shell.simpleCommand_quoteLast (plainArgv_checkWords ensure)

/-- A path that the remote shell runs as a command while it checks the path. -/
theorem checkLine_not_read :
    Shell.simpleCommand (Ensure.directoryExists "$(reboot)").checkLine ≠
      some (Ensure.directoryExists "$(reboot)").words := by decide

end There
