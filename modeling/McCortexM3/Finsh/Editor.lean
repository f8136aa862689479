import McCortexM3.Finsh.Shell

/-!
# A line editor on a list of characters

What the keys mean: a list of characters with a cursor, and the lines that have been entered.  There
is no bound on the length of a line.

## Main definitions

* `EditKey`, `decode` — the keys, and the bytes that they are received as.
* `Editor`, `Editor.apply` — the editor, and what a key does to it.
* `Editor.Fits` — that a key does not make the line too long for an array of `FINSH_CMD_SIZE`.
-/

set_option linter.all false

namespace RtThread

open TextBuffer

/-! ### Keys -/

/-- A key of the editor. -/
inductive EditKey
  | char (ch : UInt8)
  | backspace
  | tab
  | enter
  | up
  | down
  | left
  | right

/-- The key of a byte outside an escape sequence; zero and `0xFF` are no keys. -/
def plainKey (ch : UInt8) : Option EditKey :=
  if ch = 0 ∨ ch = 0xFF then none
  else if ch = 0x09 then some .tab
  else if ch = 0x7F ∨ ch = 0x08 then some .backspace
  else if ch = 0x0D ∨ ch = 0x0A then some .enter
  else some (.char ch)

/-- The state behind a byte, and the key that it ends. -/
def decode (stat : InputStat) (ch : UInt8) : InputStat × Option EditKey :=
  if ch = 0x1B then (.waitSpecKey, none)
  else
    match stat with
    | .waitNormal => (.waitNormal, plainKey ch)
    | .waitSpecKey => if ch = 0x5B then (.waitFuncKey, none) else (.waitNormal, plainKey ch)
    | .waitFuncKey =>
      if ch = 0x41 then (.waitNormal, some .up)
      else if ch = 0x42 then (.waitNormal, some .down)
      else if ch = 0x43 then (.waitNormal, some .right)
      else if ch = 0x44 then (.waitNormal, some .left)
      else (.waitNormal, plainKey ch)

/-- A byte that is received, with what it meets: whether `msh` is used, and what a completion
finds. -/
structure KeyPress where
  ch : UInt8
  msh : Bool
  found : Completions

/-! ### Completion -/

/-- The longest text that all the names begin with that begin with `pre`. -/
def completeName (names : List FinshName) (pre : List UInt8) : List UInt8 :=
  match (names.map Subtype.val).filter fun name => pre <+: name with
  | [] => pre
  | name :: names => names.foldl commonPrefix name

/-- The name of a file is completed in its path. -/
def completePath (e : Completions) (path : List UInt8) : List UInt8 :=
  let index := nameIndex path 0 0
  match e.opendir (openedPath e.cwd.1 path (path.take index)) with
  | none => path
  | some entries =>
    if path.drop index = [] then path
    else path.take index ++ completeName entries (path.drop index)

/-- The word behind the last space is completed as the path of a file. -/
def completeWord (e : Completions) (l : List UInt8) : List UInt8 :=
  match lastSpace (fun i => l.getD i 0) l.length with
  | none => l
  | some ptr => l.take (ptr + 1) ++ completePath e (l.drop (ptr + 1))

/-- A line after its completion. -/
def KeyPress.complete (k : KeyPress) (l : List UInt8) : List UInt8 :=
  if l = [] then []
  else if k.msh = true then completeName k.found.commands (completeWord k.found l)
  else completeName k.found.names l

/-! ### The editor -/

/-- The characters of the line and the cursor; the lines of the history, and the one that has been
recalled. -/
structure Editor where
  stat : InputStat
  chars : List UInt8
  cursor : ℕ
  lines : List (List UInt8)
  current : ℕ

namespace Editor

/-- A line is recalled. -/
def recallLine (a : Editor) (index : ℕ) : Editor :=
  { a with
    current := index
    chars := a.lines.getD index []
    cursor := (a.lines.getD index []).length }

/-- The history after a line, of which it keeps `FINSH_HISTORY_LINES`. -/
def push (a : Editor) : List (List UInt8) :=
  if a.chars = [] ∨ a.lines.getLast? = some a.chars then a.lines
  else (a.lines ++ [a.chars]).drop (a.lines.length + 1 - finshHistoryLines)

/-- What a line is executed as. -/
def exec (a : Editor) (k : KeyPress) : Option Execution :=
  if k.msh = true then some (.msh a.chars)
  else if a.chars = [] then none
  else some (.finsh (a.chars ++ [0x3B]))

/-- What a key does to the editor. -/
def apply (a : Editor) (k : KeyPress) : EditKey → Editor
  | .char ch => { a with chars := a.chars.insertIdx a.cursor ch, cursor := a.cursor + 1 }
  | .backspace =>
    if a.cursor = 0 then a
    else { a with chars := a.chars.eraseIdx (a.cursor - 1), cursor := a.cursor - 1 }
  | .tab => { a with chars := k.complete a.chars, cursor := (k.complete a.chars).length }
  | .enter => { a with chars := [], cursor := 0, lines := a.push, current := a.push.length }
  | .up => if a.current = 0 then a else a.recallLine (a.current - 1)
  | .down =>
    if a.current + 1 < a.lines.length then a.recallLine (a.current + 1)
    else if a.lines ≠ [] then a.recallLine (a.lines.length - 1)
    else a
  | .left => { a with cursor := a.cursor - 1 }
  | .right => if a.cursor < a.chars.length then { a with cursor := a.cursor + 1 } else a

/-- What a key has executed. -/
def execOf (a : Editor) (k : KeyPress) : EditKey → Option Execution
  | .enter => a.exec k
  | _ => none

/-- A byte is received. -/
def step (a : Editor) (k : KeyPress) : Editor × Option Execution :=
  match decode a.stat k.ch with
  | (stat, none) => ({ a with stat := stat }, none)
  | (stat, some key) => ({ a with stat := stat }.apply k key, a.execOf k key)

/-- Bytes are received; the lines that are executed. -/
def run : Editor → List KeyPress → Editor × List Execution
  | a, [] => (a, [])
  | a, k :: ks => ((a.step k).1.run ks |>.1, (a.step k).2.toList ++ ((a.step k).1.run ks).2)

/-- A key that does not make a line too long: no character is typed behind 79 of them, a completion
has 79 at most, and a line that is ended outside `msh` has room for its `;`. -/
def Fits (a : Editor) (k : KeyPress) : EditKey → Prop
  | .char _ => a.chars.length + 1 < finshCmdSize
  | .tab => (k.complete a.chars).length < finshCmdSize
  | .enter => k.msh = true ∨ a.chars.length + 1 < finshCmdSize
  | _ => True

/-- Bytes of which no key makes a line too long. -/
def FitsRun : Editor → List KeyPress → Prop
  | _, [] => True
  | a, k :: ks => (∀ key ∈ (decode a.stat k.ch).2, a.Fits k key) ∧ (a.step k).1.FitsRun ks

end Editor

end RtThread
