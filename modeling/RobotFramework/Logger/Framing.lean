import RobotFramework.Lib.Lines
import RobotFramework.Logger.Delivery
import RobotFramework.Logger.ReadBack

/-!
# The lines of a log file

A log file is to have one line for each entry. `flush` ends each entry with a newline, but copies
the message as it is; so the lines are the entries exactly as long as no message holds a newline
(`lines_iff`), and a message that does can spell whole entries of its own.
-/

namespace RobotFramework

open Cxx Reactive BufferedWriter Lines

variable {K : Type}

section

variable [Field K] [LinearOrder K] [FloorRing K]

/-- How an entry reads in the file. -/
def LogEntry.rendering (entry : LogEntry K) : Text :=
  padLeft '0' 8 (intText entry.timestampMs) ++ entry.dataText ++ entry.messageText

theorem LogEntry.line_eq (entry : LogEntry K) : entry.line = entry.rendering ++ ['\n'] := rfl

/-- Nothing but the message can break the line. -/
theorem LogEntry.newline_mem_rendering (entry : LogEntry K) :
    '\n' ∈ entry.rendering ↔ '\n' ∈ entry.message := by
  have htime : '\n' ∉ padLeft '0' 8 (intText entry.timestampMs) := by
    intro h
    rcases List.mem_append.mp h with hpad | hmem
    · exact absurd (List.mem_replicate.mp hpad).2 (by decide)
    · exact absurd (mem_intText hmem) (by decide)
  have hdata : '\n' ∉ entry.dataText := by
    intro h
    obtain ⟨kv, -, hmem⟩ := List.mem_flatMap.mp h
    rcases List.mem_append.mp hmem with hsep | hvalue
    · exact absurd hsep (by decide)
    · rcases List.mem_append.mp hvalue with hpad | hmem
      · exact absurd (List.mem_replicate.mp hpad).2 (by decide)
      · exact absurd (Double.mem_toText hmem) (by decide)
  have hmessage : '\n' ∈ entry.messageText ↔ '\n' ∈ entry.message := by
    have hlevel : '\n' ∉ logLevelToString entry.level := by cases entry.level <;> decide
    unfold LogEntry.messageText
    split
    · rename_i hnil
      rw [hnil]
    · have hopen : '\n' ∉ " [".toList := by decide
      have hclose : '\n' ∉ "] ".toList := by decide
      simp only [List.mem_append, hopen, hlevel, hclose, false_or]
  simp only [LogEntry.rendering, List.mem_append, htime, hdata, hmessage, false_or]

namespace Logger

/-- What has been written to the file of a key. -/
def fileText (key : Text) (os : List (Written K)) : Text :=
  (os.filter fun w => w.key = key).flatMap fun w => w.entry.line

theorem fileText_eq (key : Text) (os : List (Written K)) :
    fileText key os = terminated '\n' ((written key os).map LogEntry.rendering) := by
  induction os with
  | nil => rfl
  | cons w os ih =>
    unfold fileText terminated written at ih ⊢
    by_cases hkey : w.key = key
    · rw [List.filter_cons_of_pos (by simpa using hkey), List.flatMap_cons, ih, LogEntry.line_eq]
      simp [hkey]
    · rw [List.filter_cons_of_neg (by simpa using hkey), ih]
      simp [hkey]

/-- Each newline ends one line of the text, and the lines are the entries, in order: as many, and
the `k`-th line the `k`-th entry. -/
def OneLinePerEntry (entries : List (LogEntry K)) (text : Text) : Prop :=
  text.splitOn '\n' = entries.map LogEntry.rendering ++ [[]]

/-- **One line for each entry**, where all have been written: if no message holds a newline. -/
theorem lines_iff {key : Text} {entries : List (LogEntry K)} {os : List (Written K)}
    (h : written key os = entries) :
    OneLinePerEntry entries (fileText key os) ↔ ∀ entry ∈ entries, '\n' ∉ entry.message := by
  rw [OneLinePerEntry, fileText_eq, h, splitOn_terminated_iff, List.forall_mem_map]
  exact forall₂_congr fun entry _ => not_congr entry.newline_mem_rendering

end Logger

end

end RobotFramework
