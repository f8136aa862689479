import McCortexM3.TextBuffer

/-!
# The line editor of finsh

The loop of `finsh_thread_entry` in `shell.c`, a key after the other, with `shell_push_history`, and
the completions `msh_auto_complete` and `msh_auto_complete_path` of `msh.c` and `list_prefix` of
`cmd.c`, for the options of `rtconfig.h`: `FINSH_USING_MSH` and `FINSH_USING_HISTORY` with
`FINSH_HISTORY_LINES` 5, `RT_USING_DFS`, no `RT_USING_MODULE`.  What is printed is left out.

A step that writes outside `line`, or reads a string of which there is no end in it, gives `none`.

## Main definitions

* `FinshShell` — the fields of the shell.
* `FinshShell.key` — a round of the loop.
-/

set_option linter.all false

namespace RtThread

open ByteMemory TextBuffer
open Function (update)

/-- `FINSH_CMD_SIZE` and `FINSH_HISTORY_LINES`. -/
def finshCmdSize : ℕ := 80
@[inherit_doc finshCmdSize] def finshHistoryLines : ℕ := 5

/-- `enum input_stat`. -/
inductive InputStat
  | waitNormal
  | waitSpecKey
  | waitFuncKey
  deriving DecidableEq

/-- The `struct finsh_shell`; there are `finshHistoryLines` rows in `cmdHistory` and `finshCmdSize`
bytes in each and in `line`. -/
structure FinshShell where
  stat : InputStat
  currentHistory : ℕ
  historyCount : ℕ
  cmdHistory : ℕ → ℕ → UInt8
  line : ℕ → UInt8
  linePosition : ℕ
  lineCurpos : ℕ

/-- A name: a string without its zero. -/
abbrev FinshName := { l : List UInt8 // (0 : UInt8) ∉ l }

/-- What a completion finds: the commands behind their `__cmd_`, the names that `list_prefix` goes
through, the working directory, and the entries of a directory, if it can be read. -/
structure Completions where
  commands : List FinshName
  names : List FinshName
  cwd : FinshName
  opendir : List UInt8 → Option (List FinshName)

/-- What the shell is given a line as: `msh_exec` and `finsh_run_line`. -/
inductive Execution
  | msh (cmd : List UInt8)
  | finsh (line : List UInt8)
  deriving DecidableEq

/-! ### Completion -/

/-- `min_length` and the name that it belongs to. -/
structure NameMatch where
  minLength : ℕ
  namePtr : Option (List UInt8)

/-- A name is looked at; `isFirst` says that no name has matched. -/
def NameMatch.next (isFirst : NameMatch → Bool) (pre : List UInt8) (m : NameMatch)
    (name : FinshName) : NameMatch :=
  if pre <+: name.1 then
    let m : NameMatch := if isFirst m = true then ⟨name.1.length, some name.1⟩ else m
    let length := (commonPrefix (m.namePtr.getD []) name.1).length
    if length < m.minLength then { m with minLength := length } else m
  else m

/-- The names of a list, as `msh.c` goes through them. -/
def matchMsh (pre : List UInt8) (names : List FinshName) : NameMatch :=
  names.foldl (NameMatch.next (fun m => m.minLength = 0) pre) ⟨0, none⟩

/-- The names of a list, as `cmd.c` goes through them. -/
def matchFinsh (pre : List UInt8) (names : List FinshName) : NameMatch :=
  names.foldl (NameMatch.next (fun m => m.namePtr.isNone) pre) ⟨0, none⟩

/-- The line after `n` bytes from `dst` on have been written. -/
def within (dst n : ℕ) (line : ℕ → UInt8) : Option (ℕ → UInt8) :=
  if dst + n ≤ finshCmdSize then some line else none

/-- The first `n` bytes of a name are copied to `dst`, with zeros behind its end. -/
def copyName (line : ℕ → UInt8) (dst : ℕ) (name : List UInt8) (n : ℕ) : Option (ℕ → UInt8) :=
  within dst n (copyFrom line dst (fun i => name.getD i 0) n)

/-- The last space of a line but at its beginning, from `ptr` on backwards. -/
def lastSpace (line : ℕ → UInt8) : ℕ → Option ℕ
  | 0 => none
  | ptr + 1 => if line (ptr + 1) = 0x20 then some (ptr + 1) else lastSpace line ptr

/-- Where the name of a file begins in its path. -/
def nameIndex : List UInt8 → ℕ → ℕ → ℕ
  | [], _, index => index
  | c :: path, ptr, index => nameIndex path (ptr + 1) (if c = 0x2F then ptr + 1 else index)

/-- The directory that is opened for a path, the part before the name being `dir`. -/
def openedPath (cwd path dir : List UInt8) : List UInt8 :=
  if path.head? ≠ some 0x2F then
    (if cwd.getLast? ≠ some 0x2F then cwd ++ [0x2F] else cwd) ++ dir
  else dir

/-- `msh_auto_complete_path` for the path that begins at `start`. -/
def mshAutoCompletePath (e : Completions) (line : ℕ → UInt8) (start : ℕ) (path : List UInt8) :
    Option (ℕ → UInt8) :=
  let index := nameIndex path 0 0
  match e.opendir (openedPath e.cwd.1 path (path.take index)) with
  | none => some line
  | some entries =>
    if path.drop index = [] then some line
    else
      let m := matchMsh (path.drop index) entries
      if m.minLength ≠ 0 then do
        let line ← copyName line (start + index) (m.namePtr.getD []) m.minLength
        within (start + index + m.minLength) 1 (update line (start + index + m.minLength) 0)
      else some line

/-- The first part of `msh_auto_complete`: the path behind the last space of the line. -/
def mshAutoCompleteWord (e : Completions) (line : ℕ → UInt8) (pre : List UInt8) :
    Option (ℕ → UInt8) :=
  match lastSpace line pre.length with
  | none => some line
  | some ptr => mshAutoCompletePath e line (ptr + 1) (pre.drop (ptr + 1))

/-- `msh_auto_complete`. -/
def mshAutoComplete (e : Completions) (line : ℕ → UInt8) : Option (ℕ → UInt8) := do
  let pre ← text finshCmdSize line
  if pre = [] then return line
  let line ← mshAutoCompleteWord e line pre
  let pre ← text finshCmdSize line
  let m := matchMsh pre e.commands
  match m.namePtr with
  | none => return line
  | some name => copyName line 0 name m.minLength

/-- `list_prefix`. -/
def listPrefix (e : Completions) (line : ℕ → UInt8) : Option (ℕ → UInt8) := do
  let pre ← text finshCmdSize line
  if pre = [] then return line
  let m := matchFinsh pre e.names
  match m.namePtr with
  | none => return line
  | some name => copyName line 0 name m.minLength

/-- `shell_auto_complete`. -/
def shellAutoComplete (msh : Bool) (e : Completions) (line : ℕ → UInt8) : Option (ℕ → UInt8) :=
  if msh = true then mshAutoComplete e line else listPrefix e line

/-! ### The keys -/

namespace FinshShell

/-- The line of the history is copied, and its end looked for. -/
def recallLine (s : FinshShell) (index : ℕ) : Option FinshShell := do
  guard (index < finshHistoryLines)
  let line := copyFrom s.line 0 (s.cmdHistory index) finshCmdSize
  let n ← strlen finshCmdSize line
  return { s with currentHistory := index, line := line, linePosition := n, lineCurpos := n }

/-- The up key. -/
def up (s : FinshShell) : Option FinshShell :=
  if s.currentHistory > 0 then s.recallLine (s.currentHistory - 1)
  else some { s with currentHistory := 0 }

/-- The down key. -/
def down (s : FinshShell) : Option FinshShell :=
  if (s.currentHistory : ℤ) < s.historyCount - 1 then s.recallLine (s.currentHistory + 1)
  else if s.historyCount ≠ 0 then s.recallLine (s.historyCount - 1)
  else some s

/-- The left key. -/
def left (s : FinshShell) : FinshShell :=
  if s.lineCurpos ≠ 0 then { s with lineCurpos := s.lineCurpos - 1 } else s

/-- The right key. -/
def right (s : FinshShell) : FinshShell :=
  if s.lineCurpos < s.linePosition then { s with lineCurpos := s.lineCurpos + 1 } else s

/-- The tab key. -/
def tab (s : FinshShell) (msh : Bool) (e : Completions) : Option FinshShell := do
  let line ← shellAutoComplete msh e s.line
  let n ← strlen finshCmdSize line
  return { s with line := line, linePosition := n, lineCurpos := n }

/-- The backspace key. -/
def backspace (s : FinshShell) : Option FinshShell :=
  if s.lineCurpos = 0 then some s
  else do
    let position := s.linePosition - 1
    let curpos := s.lineCurpos - 1
    let line ← (if position > curpos then
        within curpos (position - curpos) (copy s.line curpos (curpos + 1) (position - curpos))
      else some s.line)
    let line ← within position 1 (update line position 0)
    return { s with line := line, linePosition := position, lineCurpos := curpos }

/-- `shell_push_history`. -/
def pushHistory (s : FinshShell) : FinshShell :=
  let same (index : ℕ) : Bool :=
    (List.range finshCmdSize).all fun i => s.cmdHistory index i = s.line i
  -- the row is cleared, and the line copied
  let row : ℕ → UInt8 := copyFrom (fun _ => 0) 0 s.line s.linePosition
  let s :=
    if s.linePosition ≠ 0 then
      if s.historyCount ≥ finshHistoryLines then
        if same (finshHistoryLines - 1) = false then
          { s with
            cmdHistory := fun index =>
              if index < finshHistoryLines - 1 then s.cmdHistory (index + 1)
              else if index = finshHistoryLines - 1 then row else s.cmdHistory index
            historyCount := finshHistoryLines }
        else s
      else if s.historyCount = 0 ∨ same (s.historyCount - 1) = false then
        { s with
          cmdHistory := update s.cmdHistory s.historyCount row
          historyCount := s.historyCount + 1 }
      else s
    else s
  { s with currentHistory := s.historyCount }

/-- The end of a line: the shell, and what is executed. -/
def enter (s : FinshShell) (msh : Bool) : Option (FinshShell × Option Execution) := do
  let s := s.pushHistory
  let exec ← (if msh = true then
      some (some (Execution.msh ((List.range s.linePosition).map s.line)))
    else do
      let line ← within s.linePosition 1 (update s.line s.linePosition 0x3B)
      if s.linePosition ≠ 0 then (text finshCmdSize line).map fun l => some (Execution.finsh l)
      else some none)
  return ({ s with line := fill s.line 0 finshCmdSize 0, linePosition := 0, lineCurpos := 0 }, exec)

/-- A normal character. -/
def normal (s : FinshShell) (ch : UInt8) : Option FinshShell := do
  let s := if s.linePosition ≥ finshCmdSize then { s with linePosition := 0 } else s
  let line ← (if s.lineCurpos < s.linePosition then do
      let line ← within (s.lineCurpos + 1) (s.linePosition - s.lineCurpos)
        (copy s.line (s.lineCurpos + 1) s.lineCurpos (s.linePosition - s.lineCurpos))
      within s.lineCurpos 1 (update line s.lineCurpos ch)
    else within s.linePosition 1 (update s.line s.linePosition ch))
  let position := s.linePosition + 1
  let curpos := s.lineCurpos + 1
  if position ≥ finshCmdSize then
    return { s with line := line, linePosition := 0, lineCurpos := 0 }
  else return { s with line := line, linePosition := position, lineCurpos := curpos }

/-- A key that is no part of an escape sequence. -/
def plain (s : FinshShell) (msh : Bool) (e : Completions) (ch : UInt8) :
    Option (FinshShell × Option Execution) :=
  if ch = 0 ∨ ch = 0xFF then some (s, none)
  else if ch = 0x09 then (s.tab msh e).map (·, none)
  else if ch = 0x7F ∨ ch = 0x08 then s.backspace.map (·, none)
  else if ch = 0x0D ∨ ch = 0x0A then s.enter msh
  else (s.normal ch).map (·, none)

/-- A round of the loop of `finsh_thread_entry`: a key, whether `msh` is used, and what a completion
finds. -/
def key (s : FinshShell) (msh : Bool) (e : Completions) (ch : UInt8) :
    Option (FinshShell × Option Execution) :=
  if ch = 0x1B then some ({ s with stat := .waitSpecKey }, none)
  else
    match s.stat with
    | .waitSpecKey =>
      if ch = 0x5B then some ({ s with stat := .waitFuncKey }, none)
      else { s with stat := .waitNormal }.plain msh e ch
    | .waitFuncKey =>
      let s := { s with stat := .waitNormal }
      if ch = 0x41 then s.up.map (·, none)
      else if ch = 0x42 then s.down.map (·, none)
      else if ch = 0x44 then some (s.left, none)
      else if ch = 0x43 then some (s.right, none)
      else s.plain msh e ch
    | .waitNormal => s.plain msh e ch

end FinshShell

end RtThread
