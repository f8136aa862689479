import McCortexM3.Finsh.Complete

/-!
# The line editor of finsh is an editor

The shell refines the editor on lists as long as no key makes a line too long.

## Main definitions

* `Represents s a` — the fields of the shell hold the editor.
* `FinshShell.run` — bytes are received.

## Main results

* `Represents.key` — what a byte does to both.
* `FinshShell.run_represents` — the shell and the editor after the same bytes.
-/

set_option linter.all false

namespace RtThread

open Function List ByteMemory TextBuffer
open Editor (apply push step)
open Option (bind_eq_bind bind_some getD_some)
open Function (update)

/-- The fields of the shell hold the editor. -/
structure Represents (s : FinshShell) (a : Editor) : Prop where
  stat : s.stat = a.stat
  line : Holds finshCmdSize s.line a.chars
  position : s.linePosition = a.chars.length
  curpos : s.lineCurpos = a.cursor
  cursor_le : a.cursor ≤ a.chars.length
  count : s.historyCount = a.lines.length
  count_le : a.lines.length ≤ finshHistoryLines
  rows : ∀ i < a.lines.length, Holds finshCmdSize (s.cmdHistory i) (a.lines.getD i [])
  current : s.currentHistory = a.current
  current_le : a.current ≤ a.lines.length

variable {s : FinshShell} {a : Editor} {k : KeyPress}

theorem Represents.setLine (h : Represents s a) {line : ℕ → UInt8} {l : List UInt8} {c : ℕ}
    (hline : Holds finshCmdSize line l) (hc : c ≤ l.length) :
    Represents { s with line := line, linePosition := l.length, lineCurpos := c }
      { a with chars := l, cursor := c } :=
  ⟨h.stat, hline, rfl, rfl, hc, h.count, h.count_le, h.rows, h.current, h.current_le⟩

/-! ### The keys of the cursor and of the history -/

section

variable (h : Represents s a)
include h

theorem Represents.left : Represents s.left { a with cursor := a.cursor - 1 } := by
  have hcur := h.curpos
  have hle := h.cursor_le
  rw [FinshShell.left]
  split
  · exact { h with curpos := by dsimp only; omega, cursor_le := by dsimp only; omega }
  · exact { h with curpos := by dsimp only; omega, cursor_le := by dsimp only; omega }

theorem Represents.right : Represents s.right (a.apply k .right) := by
  rw [FinshShell.right, apply]
  by_cases hlt : a.cursor < a.chars.length
  · rw [if_pos (by rw [h.curpos, h.position]; exact hlt), if_pos hlt, h.curpos]
    exact { h with curpos := rfl, cursor_le := hlt }
  · rw [if_neg (by rw [h.curpos, h.position]; exact hlt), if_neg hlt]
    exact h

theorem Represents.recallLine {index : ℕ} (hi : index < a.lines.length) :
    ∃ s', s.recallLine index = some s' ∧ Represents s' (a.recallLine index) := by
  have hrow : Holds finshCmdSize (copyFrom s.line 0 (s.cmdHistory index) finshCmdSize)
      (a.lines.getD index []) :=
    (h.rows index hi).congr fun i hlt => if_pos ⟨Nat.zero_le i, by omega⟩
  have hrep := h.setLine hrow le_rfl
  refine ⟨{ s with
    currentHistory := index
    line := copyFrom s.line 0 (s.cmdHistory index) finshCmdSize
    linePosition := (a.lines.getD index []).length
    lineCurpos := (a.lines.getD index []).length }, ?_, ?_⟩
  · simp only [FinshShell.recallLine, guard, if_pos (hi.trans_le h.count_le), hrow.strlen_eq]
    rfl
  · exact { hrep with current := rfl, current_le := hi.le }

theorem Represents.up : ∃ s', s.up = some s' ∧ Represents s' (a.apply k .up) := by
  rw [FinshShell.up, apply, h.current]
  by_cases hzero : a.current = 0
  · rw [if_neg (by omega), if_pos hzero]
    exact ⟨_, rfl, { h with current := hzero.symm }⟩
  · rw [if_pos (by omega), if_neg hzero]
    exact h.recallLine (by have := h.current_le; omega)

theorem Represents.down : ∃ s', s.down = some s' ∧ Represents s' (a.apply k .down) := by
  rw [FinshShell.down, apply, h.current, h.count]
  by_cases hlt : a.current + 1 < a.lines.length
  · rw [if_pos (by omega), if_pos hlt]
    exact h.recallLine hlt
  · rw [if_neg (by omega), if_neg hlt]
    cases hlines : a.lines with
    | nil =>
      rw [if_neg (by simp), if_neg (by simp)]
      exact ⟨s, rfl, h⟩
    | cons l ls =>
      rw [if_pos (by simp), if_pos (by simp), ← hlines]
      exact h.recallLine (by rw [hlines, length_cons]; omega)

end

/-! ### The keys that change the line -/

theorem Represents.tab (h : Represents s a) (hfits : a.Fits k .tab) :
    ∃ s', s.tab k.msh k.found = some s' ∧ Represents s' (a.apply k .tab) := by
  obtain ⟨line, hcomplete, hline⟩ : ∃ line, shellAutoComplete k.msh k.found s.line = some line ∧
      Holds finshCmdSize line (k.complete a.chars) := by
    have hholds := h.line
    simp only [shellAutoComplete, Editor.Fits, KeyPress.complete] at hfits ⊢
    by_cases hnil : a.chars = []
    · -- for an empty line there is nothing to complete
      rw [hnil] at hholds
      rw [if_pos hnil, mshAutoComplete, listPrefix, hholds.text_eq]
      refine ⟨s.line, ?_, hholds⟩
      split <;> rfl
    · rw [if_neg hnil] at hfits ⊢
      split at hfits
      · next hmsh =>
        rw [if_pos hmsh, if_pos hmsh]
        exact holds_mshAutoComplete hholds hnil hfits
      · next hmsh =>
        rw [if_neg hmsh, if_neg hmsh]
        exact holds_listPrefix hholds hnil hfits
  refine ⟨_, ?_, h.setLine hline le_rfl⟩
  rw [FinshShell.tab, hcomplete, bind_eq_bind, bind_some, hline.strlen_eq]
  rfl

theorem within_of_le {dst n : ℕ} {line : ℕ → UInt8} (h : dst + n ≤ finshCmdSize) :
    within dst n line = some line := if_pos h

theorem Represents.backspace (h : Represents s a) :
    ∃ s', s.backspace = some s' ∧ Represents s' (a.apply k .backspace) := by
  have hcur := h.curpos
  have hle := h.cursor_le
  have hfits := h.line.fits
  rw [FinshShell.backspace, apply]
  by_cases hzero : a.cursor = 0
  · rw [if_pos (by omega), if_pos hzero]
    exact ⟨s, rfl, h⟩
  rw [if_neg (by omega), if_neg hzero]
  have herase := h.line.erase (c := a.cursor - 1) (by omega)
  have hlen : (a.chars.eraseIdx (a.cursor - 1)).length = a.chars.length - 1 :=
    length_eraseIdx_of_lt (by omega)
  have hrep := h.setLine herase (c := a.cursor - 1) (by omega)
  rw [hlen] at hrep
  refine ⟨_, ?_, hrep⟩
  dsimp only
  rw [h.position, h.curpos]
  -- without characters behind the cursor nothing is moved
  have hmove : (if a.chars.length - 1 > a.cursor - 1 then
      within (a.cursor - 1) (a.chars.length - 1 - (a.cursor - 1))
        (copy s.line (a.cursor - 1) (a.cursor - 1 + 1) (a.chars.length - 1 - (a.cursor - 1)))
      else some s.line) =
      some (copy s.line (a.cursor - 1) (a.cursor - 1 + 1)
        (a.chars.length - 1 - (a.cursor - 1))) := by
    split
    · exact within_of_le (by omega)
    · congr 1
      funext i
      rw [copy_of_outside (by omega)]
  rw [hmove, bind_eq_bind, bind_some, within_of_le (by omega)]
  rfl

theorem Represents.normal (h : Represents s a) {ch : UInt8} (hch : ch ≠ 0)
    (hfits : a.Fits k (.char ch)) :
    ∃ s', s.normal ch = some s' ∧ Represents s' (a.apply k (.char ch)) := by
  have hle := h.cursor_le
  have hroom : a.chars.length + 1 < finshCmdSize := hfits
  have hinsert := h.line.insert hle hroom hch
  have hlen : (a.chars.insertIdx a.cursor ch).length = a.chars.length + 1 :=
    length_insertIdx_of_le_length hle ch
  have hrep := h.setLine hinsert (c := a.cursor + 1) (by omega)
  rw [hlen] at hrep
  refine ⟨_, ?_, hrep⟩
  have hpos : ¬ s.linePosition ≥ finshCmdSize := by rw [h.position]; omega
  rw [FinshShell.normal, if_neg hpos]
  dsimp only
  rw [h.position, h.curpos]
  have hline : (if a.cursor < a.chars.length then do
      let line ← within (a.cursor + 1) (a.chars.length - a.cursor)
        (copy s.line (a.cursor + 1) a.cursor (a.chars.length - a.cursor))
      within a.cursor 1 (update line a.cursor ch)
      else within a.chars.length 1 (update s.line a.chars.length ch)) =
      some (update (copy s.line (a.cursor + 1) a.cursor (a.chars.length - a.cursor))
        a.cursor ch) := by
    split
    · rw [within_of_le (by omega), bind_eq_bind, bind_some, within_of_le (by omega)]
    · -- the cursor is at the end
      have hend : a.cursor = a.chars.length := by omega
      rw [within_of_le (by omega), hend]
      congr 2
      funext i
      rw [copy_of_outside (by omega)]
  rw [hline, bind_eq_bind, bind_some, if_neg (by omega)]
  rfl

/-! ### The end of a line -/

theorem Represents.row (h : Represents s a) :
    Holds finshCmdSize (copyFrom (fun _ => 0) 0 s.line s.linePosition) a.chars := by
  refine h.line.congr fun i hi => ?_
  rw [copyFrom, h.position]
  split
  · rfl
  · rw [h.line.bytes i hi, getD_of_le (by omega)]

theorem Represents.same_iff (h : Represents s a) {index : ℕ} (hi : index < a.lines.length) :
    (((List.range finshCmdSize).all fun i => s.cmdHistory index i = s.line i) = true) ↔
      a.lines.getD index [] = a.chars := by
  simp only [all_eq_true, mem_range, decide_eq_true_eq]
  constructor
  · exact fun hbytes => (h.rows index hi).ext h.line hbytes
  · intro heq i hlt
    rw [(h.rows index hi).bytes i hlt, h.line.bytes i hlt, heq]

theorem getLast?_eq_some_iff_getD {lines : List (List UInt8)} {l : List UInt8}
    (h : 0 < lines.length) :
    lines.getLast? = some l ↔ lines.getD (lines.length - 1) [] = l := by
  rw [getLast?_eq_getElem?, getD_eq_getElem?_getD, getElem?_eq_getElem (by omega),
    Option.some_inj, getD_some]

theorem Represents.same_last (h : Represents s a) (hlines : 0 < a.lines.length) :
    (((List.range finshCmdSize).all fun i => s.cmdHistory (a.lines.length - 1) i = s.line i) =
        false) ↔ a.lines.getLast? ≠ some a.chars := by
  rw [← Bool.not_eq_true, h.same_iff (by omega), Ne, getLast?_eq_some_iff_getD hlines]

theorem Represents.pushHistory_of_same (h : Represents s a)
    (hsame : a.chars = [] ∨ a.lines.getLast? = some a.chars) :
    s.pushHistory = { s with currentHistory := s.historyCount } := by
  have hcount := h.count
  have hle := h.count_le
  simp only [FinshShell.pushHistory]
  by_cases hnil : a.chars = []
  · rw [if_neg (by rw [h.position, hnil]; simp)]
  have hlast := hsame.resolve_left hnil
  have hlines : 0 < a.lines.length := by
    rw [length_pos_iff]
    intro hempty
    rw [hempty] at hlast
    cases hlast
  have hbytes := mt (h.same_last hlines).mp (not_not.mpr hlast)
  rw [if_pos (by rw [h.position]; simpa using hnil)]
  by_cases hfull : s.historyCount ≥ finshHistoryLines
  · have hlen : finshHistoryLines - 1 = a.lines.length - 1 := by omega
    rw [if_pos hfull, hlen, if_neg hbytes]
  · have hcond : ¬ (s.historyCount = 0 ∨
        ((List.range finshCmdSize).all fun i => s.cmdHistory (s.historyCount - 1) i = s.line i) =
          false) := by
      rw [hcount]
      rintro (hzero | hbad)
      · omega
      · exact hbytes hbad
    rw [if_neg hfull, if_neg hcond]

theorem Represents.pushHistory (h : Represents s a) :
    Represents s.pushHistory { a with lines := a.push, current := a.push.length } := by
  by_cases hsame : a.chars = [] ∨ a.lines.getLast? = some a.chars
  · rw [h.pushHistory_of_same hsame, push, if_pos hsame]
    exact { h with current := h.count, current_le := le_rfl }
  obtain ⟨hnil, hlast⟩ := not_or.mp hsame
  have hcount := h.count
  have hle := h.count_le
  rw [push, if_neg hsame]
  simp only [FinshShell.pushHistory]
  rw [if_pos (by rw [h.position]; simpa using hnil)]
  by_cases hfull : s.historyCount ≥ finshHistoryLines
  · -- the first row is dropped
    have hlen : a.lines.length = 5 := by simp only [finshHistoryLines] at *; omega
    have hbytes := (h.same_last (by omega)).mpr hlast
    have hidx : a.lines.length - 1 = finshHistoryLines - 1 := by rw [hlen]; rfl
    rw [hidx] at hbytes
    rw [if_pos hfull, if_pos hbytes]
    have hdrop : ((a.lines ++ [a.chars]).drop (a.lines.length + 1 - finshHistoryLines)).length = 5 := by
      rw [length_drop, length_append, length_singleton, hlen]
      rfl
    refine { h with count := ?_, count_le := ?_, rows := ?_, current := ?_, current_le := ?_ }
    · exact hdrop.symm
    · exact hdrop.le
    · intro i hi
      have hi5 : i < 5 := hi.trans_eq hdrop
      have hone : a.lines.length + 1 - finshHistoryLines = 1 := by rw [hlen]; rfl
      have hfour : finshHistoryLines - 1 = 4 := rfl
      dsimp only
      rw [hone, hfour, getD_eq_getElem?_getD, getElem?_drop]
      by_cases hi4 : i < 4
      · rw [if_pos hi4, getElem?_append_left (by omega), Nat.add_comm 1 i,
          ← getD_eq_getElem?_getD]
        exact h.rows (i + 1) (by omega)
      · have hlast4 : 1 + i = a.lines.length := by omega
        rw [if_neg hi4, if_pos (by omega), hlast4, getElem?_concat_length, getD_some]
        exact h.row
    · exact hdrop.symm
    · exact le_rfl
  · -- the line is a new row
    have hcond : s.historyCount = 0 ∨
        ((List.range finshCmdSize).all fun i => s.cmdHistory (s.historyCount - 1) i = s.line i) =
          false := by
      by_cases hzero : s.historyCount = 0
      · exact .inl hzero
      · rw [hcount]
        exact .inr ((h.same_last (by omega)).mpr hlast)
    have hdrop : a.lines.length + 1 - finshHistoryLines = 0 := by omega
    rw [if_neg hfull, if_pos hcond, hdrop, drop_zero]
    refine { h with count := ?_, count_le := ?_, rows := ?_, current := ?_, current_le := ?_ }
    · dsimp only
      rw [hcount, length_append, length_singleton]
    · rw [length_append, length_singleton]
      omega
    · intro i hi
      rw [length_append, length_singleton] at hi
      dsimp only
      rw [hcount, getD_eq_getElem?_getD]
      by_cases hnew : i = a.lines.length
      · rw [hnew, update_self, getElem?_concat_length, getD_some]
        exact h.row
      · rw [update_of_ne hnew, getElem?_append_left (by omega),
          ← getD_eq_getElem?_getD]
        exact h.rows i (by omega)
    · dsimp only
      rw [hcount, length_append, length_singleton]
    · exact le_rfl

theorem Represents.enter (h : Represents s a) (hfits : a.Fits k .enter) :
    ∃ s', s.enter k.msh = some (s', a.exec k) ∧ Represents s' (a.apply k .enter) := by
  have hpush := h.pushHistory
  have hexec : (if k.msh = true then
      some (some (Execution.msh ((List.range s.pushHistory.linePosition).map s.pushHistory.line)))
    else do
      let line ← within s.pushHistory.linePosition 1
        (update s.pushHistory.line s.pushHistory.linePosition 0x3B)
      if s.pushHistory.linePosition ≠ 0 then
        (text finshCmdSize line).map fun l => some (Execution.finsh l)
      else some none) = some (a.exec k) := by
    rw [hpush.position, Editor.exec]
    split
    · rw [hpush.line.map_range]
    · next hmsh =>
      have hroom : a.chars.length + 1 < finshCmdSize := hfits.resolve_left hmsh
      have hline : Holds finshCmdSize
          (update s.pushHistory.line a.chars.length 0x3B) (a.chars ++ [0x3B]) := by
        have hinsert := hpush.line.insert le_rfl hroom (b := 0x3B) (by decide)
        rw [insertIdx_length_self] at hinsert
        refine hinsert.congr fun i hi => ?_
        rw [Nat.sub_self]
        congr 1
        funext j
        rw [copy_of_outside (by omega)]
      rw [within_of_le (by dsimp only; omega), bind_eq_bind, bind_some]
      by_cases hnil : a.chars = []
      · rw [if_neg (by dsimp only; rw [hnil]; simp), if_pos hnil]
      · rw [if_pos (by dsimp only; simpa using hnil), if_neg hnil, hline.text_eq]
        rfl
  have hempty : Holds finshCmdSize (fill s.pushHistory.line 0 finshCmdSize 0) [] :=
    Holds.nil (by decide) fun i hi => if_pos ⟨Nat.zero_le i, by omega⟩
  refine ⟨_, ?_, hpush.setLine hempty (c := 0) le_rfl⟩
  simp only [FinshShell.enter]
  rw [hexec]
  rfl

/-! ### Bytes -/

theorem Represents.setStat (h : Represents s a) (stat : InputStat) :
    Represents { s with stat := stat } { a with stat := stat } :=
  { h with stat := rfl }

theorem Represents.plain (h : Represents s a) (ch : UInt8)
    (hfits : ∀ key ∈ plainKey ch, a.Fits k key) :
    match plainKey ch with
    | none => s.plain k.msh k.found ch = some (s, none)
    | some key => ∃ s', s.plain k.msh k.found ch = some (s', a.execOf k key) ∧
        Represents s' (a.apply k key) := by
  rw [FinshShell.plain]
  unfold plainKey at hfits ⊢
  by_cases hnone : ch = 0 ∨ ch = 0xFF
  · simp only [if_pos hnone]
  by_cases htab : ch = 0x09
  · simp only [if_neg hnone, if_pos htab] at hfits ⊢
    obtain ⟨s', hs', hrep⟩ := h.tab (k := k) (hfits _ rfl)
    exact ⟨s', by rw [hs']; rfl, hrep⟩
  by_cases hback : ch = 0x7F ∨ ch = 0x08
  · simp only [if_neg hnone, if_neg htab, if_pos hback]
    obtain ⟨s', hs', hrep⟩ := h.backspace (k := k)
    exact ⟨s', by rw [hs']; rfl, hrep⟩
  by_cases henter : ch = 0x0D ∨ ch = 0x0A
  · simp only [if_neg hnone, if_neg htab, if_neg hback, if_pos henter] at hfits ⊢
    exact h.enter (hfits _ rfl)
  · simp only [if_neg hnone, if_neg htab, if_neg hback, if_neg henter] at hfits ⊢
    obtain ⟨s', hs', hrep⟩ := h.normal (k := k) (fun hzero => hnone (.inl hzero)) (hfits _ rfl)
    exact ⟨s', by rw [hs']; rfl, hrep⟩

theorem Represents.key_plain (h : Represents s a) {stat : InputStat}
    (hdecode : decode a.stat k.ch = (stat, plainKey k.ch))
    (hfits : ∀ key ∈ (decode a.stat k.ch).2, a.Fits k key) :
    ∃ s', { s with stat := stat }.plain k.msh k.found k.ch = some (s', (a.step k).2) ∧
      Represents s' (a.step k).1 := by
  rw [hdecode] at hfits
  have hplain := (h.setStat stat).plain (k := k) k.ch fun key hkey => by
    have hkey' := hfits key hkey
    cases key <;> exact hkey'
  rw [step, hdecode]
  cases hkey : plainKey k.ch with
  | none =>
    rw [hkey] at hplain
    exact ⟨_, hplain, h.setStat stat⟩
  | some key =>
    rw [hkey] at hplain
    cases key <;> exact hplain

theorem Represents.key (h : Represents s a) (hfits : ∀ key ∈ (decode a.stat k.ch).2, a.Fits k key) :
    ∃ s', s.key k.msh k.found k.ch = some (s', (a.step k).2) ∧ Represents s' (a.step k).1 := by
  rw [FinshShell.key]
  by_cases hesc : k.ch = 0x1B
  · have hdecode : decode a.stat k.ch = (.waitSpecKey, none) := if_pos hesc
    rw [if_pos hesc, step, hdecode]
    exact ⟨_, rfl, h.setStat .waitSpecKey⟩
  rw [if_neg hesc, h.stat]
  cases hstat : a.stat with
  | waitNormal =>
    have hdecode : decode a.stat k.ch = (.waitNormal, plainKey k.ch) := by
      simp only [decode, if_neg hesc, hstat]
    have hkey := h.key_plain hdecode hfits
    rw [← hstat, ← h.stat] at hkey
    exact hkey
  | waitSpecKey =>
    by_cases hfunc : k.ch = 0x5B
    · have hdecode : decode a.stat k.ch = (.waitFuncKey, none) := by
        simp only [decode, if_neg hesc, hstat, if_pos hfunc]
      dsimp only
      rw [if_pos hfunc, step, hdecode]
      exact ⟨_, rfl, h.setStat .waitFuncKey⟩
    · have hdecode : decode a.stat k.ch = (.waitNormal, plainKey k.ch) := by
        simp only [decode, if_neg hesc, hstat, if_neg hfunc]
      dsimp only
      rw [if_neg hfunc]
      exact h.key_plain hdecode hfits
  | waitFuncKey =>
    have hnormal := h.setStat .waitNormal
    dsimp only
    by_cases hup : k.ch = 0x41
    · have hdecode : decode a.stat k.ch = (.waitNormal, some .up) := by
        simp only [decode, if_neg hesc, hstat, if_pos hup]
      obtain ⟨s', hs', hrep⟩ := hnormal.up (k := k)
      rw [if_pos hup, step, hdecode, hs']
      exact ⟨s', rfl, hrep⟩
    by_cases hdown : k.ch = 0x42
    · have hdecode : decode a.stat k.ch = (.waitNormal, some .down) := by
        simp only [decode, if_neg hesc, hstat, if_neg hup, if_pos hdown]
      obtain ⟨s', hs', hrep⟩ := hnormal.down (k := k)
      rw [if_neg hup, if_pos hdown, step, hdecode, hs']
      exact ⟨s', rfl, hrep⟩
    by_cases hright : k.ch = 0x43
    · have hdecode : decode a.stat k.ch = (.waitNormal, some .right) := by
        simp only [decode, if_neg hesc, hstat, if_neg hup, if_neg hdown, if_pos hright]
      have hleft : k.ch ≠ 0x44 := by
        rw [hright]
        decide
      rw [if_neg hup, if_neg hdown, if_neg hleft, if_pos hright, step, hdecode]
      exact ⟨_, rfl, hnormal.right (k := k)⟩
    by_cases hleft : k.ch = 0x44
    · have hdecode : decode a.stat k.ch = (.waitNormal, some .left) := by
        simp only [decode, if_neg hesc, hstat, if_neg hup, if_neg hdown, if_neg hright, if_pos hleft]
      rw [if_neg hup, if_neg hdown, if_pos hleft, step, hdecode]
      exact ⟨_, rfl, hnormal.left⟩
    · have hdecode : decode a.stat k.ch = (.waitNormal, plainKey k.ch) := by
        simp only [decode, if_neg hesc, hstat, if_neg hup, if_neg hdown, if_neg hright, if_neg hleft]
      rw [if_neg hup, if_neg hdown, if_neg hleft, if_neg hright]
      exact h.key_plain hdecode hfits

/-! ### Runs -/

/-- Bytes are received: the shell behind them, and the lines that have been executed. -/
def FinshShell.run : FinshShell → List KeyPress → Option (FinshShell × List Execution)
  | s, [] => some (s, [])
  | s, k :: ks => do
    let (s, exec) ← s.key k.msh k.found k.ch
    let (s, execs) ← s.run ks
    return (s, exec.toList ++ execs)

/-- As long as no key makes the line too long, the shell does what the editor on lists does: its
line is the list of characters with zeros behind it, its position the length and the cursor of the
list, and what it executes are the lists that have been entered. -/
theorem FinshShell.run_represents (ks : List KeyPress) (h : Represents s a) (hfits : a.FitsRun ks) :
    ∃ s', s.run ks = some (s', (a.run ks).2) ∧ Represents s' (a.run ks).1 ∧
      s'.lineCurpos ≤ s'.linePosition ∧ s'.linePosition < finshCmdSize ∧
      s'.line s'.linePosition = 0 := by
  induction ks generalizing s a with
  | nil =>
    refine ⟨s, rfl, h, ?_, ?_, ?_⟩
    · rw [h.curpos, h.position]
      exact h.cursor_le
    · rw [h.position]
      exact h.line.fits
    · rw [h.position, h.line.bytes _ h.line.fits, getD_of_le le_rfl]
  | cons k ks ih =>
    obtain ⟨hkey, hlater⟩ := hfits
    obtain ⟨s₁, hs₁, hrep₁⟩ := h.key hkey
    obtain ⟨s₂, hs₂, hrest⟩ := ih hrep₁ hlater
    refine ⟨s₂, ?_, hrest⟩
    simp only [FinshShell.run, hs₁, bind_eq_bind, bind_some, hs₂]
    rfl

/-- The shell before the first key. -/
def FinshShell.init : FinshShell := ⟨.waitNormal, 0, 0, fun _ _ => 0, fun _ => 0, 0, 0⟩

/-- The editor before the first key. -/
def Editor.init : Editor := ⟨.waitNormal, [], 0, [], 0⟩

theorem represents_init : Represents .init .init :=
  ⟨rfl, Holds.nil (by decide) fun _ _ => rfl, rfl, rfl, le_rfl, rfl, Nat.zero_le _,
    fun _ hi => absurd hi (Nat.not_lt_zero _), rfl, le_rfl⟩

/-- A key in `msh`, with nothing to complete. -/
def KeyPress.ofByte (ch : UInt8) : KeyPress :=
  ⟨ch, true, ⟨[], [], ⟨[0x2F], by decide⟩, fun _ => none⟩⟩

/-- The letter `a` and the end of the line. -/
theorem run_represents_letter :
    ∃ s', FinshShell.init.run [.ofByte 0x61, .ofByte 0x0D] = some (s', [.msh [0x61]]) ∧
      Represents s' ⟨.waitNormal, [], 0, [[0x61]], 1⟩ := by
  obtain ⟨s', hrun, hrep, -⟩ :=
    FinshShell.run_represents [.ofByte 0x61, .ofByte 0x0D] represents_init
      ⟨by rintro _ ⟨⟩; exact (by decide : 0 + 1 < 80), by rintro _ ⟨⟩; exact .inl rfl, trivial⟩
  exact ⟨s', hrun, hrep⟩

set_option maxRecDepth 8000 in
/-- Behind eighty letters the line is taken to be empty, but its bytes are still there. -/
theorem not_run_terminated :
    ¬ ∀ ks : List KeyPress, ∃ s' execs, FinshShell.init.run ks = some (s', execs) ∧
      s'.lineCurpos ≤ s'.linePosition ∧ s'.linePosition < finshCmdSize ∧
      s'.line s'.linePosition = 0 := by
  intro hall
  obtain ⟨s', execs, hrun, -, -, hzero⟩ := hall (replicate 80 (.ofByte 0x61))
  have hbad : (FinshShell.init.run (replicate 80 (.ofByte 0x61))).any
      (fun r => decide (r.1.line r.1.linePosition = 0)) = false := by
    decide
  rw [hrun] at hbad
  simp [hzero] at hbad

end RtThread
