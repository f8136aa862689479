import Mathlib.Data.List.Forall2
import Mathlib.Data.List.GetD

/-!
# The arguments of a command line

`msh_split` of `msh.c` splits a command line in its own buffer: blanks and tabs become zeros, and
so do the closing quotes.  A pointer and a position are moved together through nested loops.

## Main definitions

* `MshSplit`, `mshSplit` — the function; an access behind `cmd[length]` gives `none`.
* `tokenize` — the arguments of a line, from its characters alone.

## Main results

* `mshSplit_eq` — the function returns the first arguments of the line, which it has ended.
* `mshSplit_quotedArgs` — the arguments that have been written in quotes.
-/

set_option linter.all false

namespace RtThread

open Function Option List Nat
open Function (update)

/-- A blank or a tab. -/
def isBlank (c : UInt8) : Bool := c = 0x20 ∨ c = 0x09

/-- `'"'` and `'\\'`. -/
def quote : UInt8 := 0x22
@[inherit_doc quote] def backslash : UInt8 := 0x5C

/-- The buffer and the variables of `msh_split`; `argc` is the length of `argv`, and `ptr` is
relative to `cmd`.  The strings that are printed when there are too many arguments are in
`printed`. -/
structure MshSplit where
  cmd : ℕ → UInt8
  ptr : ℕ
  position : ℕ
  argv : List ℕ
  printed : List (List UInt8)

namespace MshSplit

/-- The character at `i`, which is not behind `cmd[length]`. -/
def charAt (length i : ℕ) (s : MshSplit) : Option UInt8 :=
  if i ≤ length then some (s.cmd i) else none

/-- The character at `ptr` becomes a zero. -/
def clear (length : ℕ) (s : MshSplit) : Option MshSplit :=
  if s.ptr ≤ length then some { s with cmd := update s.cmd s.ptr 0 } else none

/-- `ptr ++; position ++;` -/
def advance (s : MshSplit) : MshSplit := { s with ptr := s.ptr + 1, position := s.position + 1 }

/-- `argv[argc] = ptr; argc ++;` -/
def addArg (argMax : ℕ) (s : MshSplit) : Option MshSplit :=
  if s.argv.length < argMax then some { s with argv := s.argv ++ [s.ptr] } else none

/-- `while ((*ptr == ' ' || *ptr == '\t') && position < length)` -/
def strip (length : ℕ) : ℕ → MshSplit → Option MshSplit
  | 0, _ => none
  | fuel + 1, s => do
    let c ← s.charAt length s.ptr
    if isBlank c ∧ s.position < length then
      let s ← s.clear length
      strip length fuel s.advance
    else some s

/-- `while (*ptr != '"' && position < length)` -/
def skipString (length : ℕ) : ℕ → MshSplit → Option MshSplit
  | 0, _ => none
  | fuel + 1, s => do
    let c ← s.charAt length s.ptr
    if c ≠ quote ∧ s.position < length then
      let s ←
        if c = backslash then do
          let c ← s.charAt length (s.ptr + 1)
          some (if c = quote then s.advance else s)
        else some s
      skipString length fuel s.advance
    else some s

/-- `while ((*ptr != ' ' && *ptr != '\t') && position < length)` -/
def skipWord (length : ℕ) : ℕ → MshSplit → Option MshSplit
  | 0, _ => none
  | fuel + 1, s => do
    let c ← s.charAt length s.ptr
    if ¬ isBlank c ∧ s.position < length then skipWord length fuel s.advance else some s

/-- The string at `i`, as `%s` reads it. -/
def cstring (length : ℕ) (s : MshSplit) : ℕ → ℕ → Option (List UInt8)
  | 0, _ => none
  | fuel + 1, i => do
    let c ← s.charAt length i
    if c = 0 then some [] else (cstring length s fuel (i + 1)).map (c :: ·)

/-- An argument that begins behind a quote. -/
def stringArg (argMax length : ℕ) (s : MshSplit) : Option MshSplit := do
  let s ← s.advance.addArg argMax
  s.skipString length (length + 1)

/-- An argument that ends at a blank. -/
def wordArg (argMax length : ℕ) (s : MshSplit) : Option MshSplit := do
  let s ← s.addArg argMax
  s.skipWord length (length + 1)

/-- The outer loop. -/
def loop (argMax length : ℕ) : ℕ → MshSplit → Option MshSplit
  | 0, _ => none
  | fuel + 1, s =>
    if s.position < length then do
      let s ← s.strip length (length + 1)
      if s.argv.length ≥ argMax then
        -- Too many args ! We only Use:
        let printed ← s.argv.mapM (s.cstring length (length + 1))
        some { s with printed := printed }
      else if s.position ≥ length then some s
      else
        let c ← s.charAt length s.ptr
        if c = quote then
          let s ← s.stringArg argMax length
          if s.position ≥ length then some s
          else
            let s ← s.clear length
            loop argMax length fuel s.advance
        else
          let s ← s.wordArg argMax length
          if s.position ≥ length then some s else loop argMax length fuel s
    else some s

end MshSplit

/-- `msh_split`, with `FINSH_ARG_MAX`. -/
def mshSplit (argMax : ℕ) (cmd : ℕ → UInt8) (length : ℕ) : Option MshSplit :=
  MshSplit.loop argMax length (length + 1) ⟨cmd, 0, 0, [], []⟩

/-! ### The arguments of a line -/

/-- An argument: where it begins, and its characters. -/
structure Arg where
  start : ℕ
  text : List UInt8
  deriving DecidableEq

/-- The number of characters up to the closing quote, or to the end; a quote behind a backslash
does not close a string. -/
def stringLength : List UInt8 → ℕ
  | [] => 0
  | [c] => if c = quote then 0 else 1
  | c :: c' :: l =>
    if c = quote then 0
    else if c = backslash ∧ c' = quote then stringLength l + 2
    else stringLength (c' :: l) + 1

/-- The number of characters up to the next blank. -/
def wordLength (l : List UInt8) : ℕ := (l.takeWhile fun c => !isBlank c).length

/-- The arguments of a line that begins at `p`: strings in quotes, and words. -/
def tokenize (p : ℕ) : List UInt8 → List Arg
  | [] => []
  | c :: l =>
    if isBlank c then tokenize (p + 1) l
    else if c = quote then
      let n := stringLength l
      ⟨p + 1, l.take n⟩ :: tokenize (p + 1 + n + 1) (l.drop (n + 1))
    else
      let n := wordLength l
      ⟨p, c :: l.take n⟩ :: tokenize (p + 1 + n) (l.drop n)
termination_by l => l.length
decreasing_by
  · exact Nat.lt_succ_self _
  · rw [List.length_drop, List.length_cons]
    omega
  · rw [List.length_drop, List.length_cons]
    omega

namespace MshSplit

variable {s s' : MshSplit} {length fuel argMax n : ℕ} {l : List UInt8}

/-- The pointer is at the position, and the characters `l` are behind it, and then a zero. -/
structure Unread (length : ℕ) (s : MshSplit) (l : List UInt8) : Prop where
  ptr_eq : s.ptr = s.position
  length_eq : s.position + l.length = length
  cmd_eq : ∀ k ≤ l.length, s.cmd (s.position + k) = l.getD k 0

/-- The pointer and the position are moved on. -/
def moved (n : ℕ) (s : MshSplit) : MshSplit :=
  { s with ptr := s.ptr + n, position := s.position + n }

@[simp] theorem moved_zero (s : MshSplit) : s.moved 0 = s := rfl

theorem advance_moved (n : ℕ) (s : MshSplit) : s.advance.moved n = s.moved (n + 1) := by
  simp only [moved, advance, Nat.add_assoc, Nat.add_comm 1 n]

namespace Unread

theorem charAt (h : s.Unread length l) {k : ℕ} (hk : k ≤ l.length) :
    s.charAt length (s.ptr + k) = some (l.getD k 0) := by
  have hlen := h.length_eq
  rw [MshSplit.charAt, h.ptr_eq, if_pos (by omega), h.cmd_eq k hk]

theorem charAt_ptr (h : s.Unread length l) : s.charAt length s.ptr = some (l.getD 0 0) :=
  h.charAt (Nat.zero_le _)

theorem moved (h : s.Unread length l) (hn : n ≤ l.length) :
    (s.moved n).Unread length (l.drop n) := by
  have hlen := h.length_eq
  refine ⟨?_, ?_, fun k hk => ?_⟩
  · show s.ptr + n = s.position + n
    rw [h.ptr_eq]
  · show s.position + n + (l.drop n).length = length
    rw [length_drop]
    omega
  · rw [length_drop] at hk
    show s.cmd (s.position + n + k) = (l.drop n).getD k 0
    rw [Nat.add_assoc, h.cmd_eq (n + k) (by omega), getD_eq_getElem?_getD,
      getD_eq_getElem?_getD, getElem?_drop]

theorem position_lt {c : UInt8} (h : s.Unread length (c :: l)) : s.position < length := by
  have hlen := h.length_eq
  rw [length_cons] at hlen
  omega

theorem position_nil (h : s.Unread length []) : s.position = length := h.length_eq

theorem congr (h : s.Unread length l) (hptr : s'.ptr = s.ptr) (hpos : s'.position = s.position)
    (hcmd : ∀ i, s.position ≤ i → s'.cmd i = s.cmd i) : s'.Unread length l := by
  refine ⟨by rw [hptr, hpos, h.ptr_eq], by rw [hpos, h.length_eq], fun k hk => ?_⟩
  rw [hpos, hcmd _ (Nat.le_add_right ..), h.cmd_eq k hk]

theorem clear (h : s.Unread length l) :
    s.clear length = some { s with cmd := update s.cmd s.position 0 } := by
  have hlen := h.length_eq
  rw [MshSplit.clear, h.ptr_eq, if_pos (by omega)]

/-- **The blanks** become zeros. -/
theorem strip (h : s.Unread length l) (hfuel : l.length < fuel) :
    ∃ s', s.strip length fuel = some s' ∧ s'.Unread length (l.dropWhile isBlank) ∧
      s'.argv = s.argv ∧ (∀ i < s.position, s'.cmd i = s.cmd i) ∧
      ∀ i, s.position ≤ i → i < s'.position → s'.cmd i = 0 := by
  induction l generalizing s fuel with
  | nil =>
    obtain ⟨fuel, rfl⟩ : ∃ m, fuel = m + 1 := ⟨fuel - 1, by omega⟩
    refine ⟨s, ?_, h, rfl, fun _ _ => rfl, fun i hi hi' => by omega⟩
    rw [MshSplit.strip, h.charAt_ptr]
    rfl
  | cons c l ih =>
    rw [length_cons] at hfuel
    obtain ⟨fuel, rfl⟩ : ∃ m, fuel = m + 1 := ⟨fuel - 1, by omega⟩
    have hlt := h.position_lt
    rw [MshSplit.strip, h.charAt_ptr]
    cases hc : isBlank c with
    | false =>
      refine ⟨s, ?_, by simpa [hc] using h, rfl, fun _ _ => rfl, fun i hi hi' => by omega⟩
      simp [hc]
    | true =>
      have hnext : ({ s with cmd := update s.cmd s.position 0 } : MshSplit).advance.Unread
          length l := by
        refine (h.moved (n := 1) (by simp)).congr rfl rfl fun i hi => ?_
        have hne : i ≠ s.position := by
          have hle : s.position + 1 ≤ i := hi
          omega
        exact update_of_ne hne ..
      obtain ⟨s', hs', hunread, hargv, hbefore, hzero⟩ := ih hnext (by omega : l.length < fuel)
      refine ⟨s', ?_, by simpa [hc] using hunread, hargv, fun i hi => ?_, fun i hi hi' => ?_⟩
      · simp [hc, hlt, h.clear, hs']
      · rw [hbefore i (lt_succ_of_lt hi)]
        exact update_of_ne (Nat.ne_of_lt hi) ..
      · rcases Nat.eq_or_lt_of_le hi with rfl | hlt'
        · rw [hbefore _ (lt_succ_self _)]
          exact update_self ..
        · exact hzero i hlt' hi'

theorem wordLength_le (l : List UInt8) : wordLength l ≤ l.length :=
  (takeWhile_sublist _).length_le

/-- **A word** is skipped. -/
theorem skipWord (h : s.Unread length l) (hfuel : l.length < fuel) :
    s.skipWord length fuel = some (s.moved (wordLength l)) := by
  induction l generalizing s fuel with
  | nil =>
    obtain ⟨fuel, rfl⟩ : ∃ m, fuel = m + 1 := ⟨fuel - 1, by omega⟩
    rw [MshSplit.skipWord, h.charAt_ptr]
    simp [h.position_nil, wordLength]
  | cons c l ih =>
    rw [length_cons] at hfuel
    obtain ⟨fuel, rfl⟩ : ∃ m, fuel = m + 1 := ⟨fuel - 1, by omega⟩
    have hlt := h.position_lt
    rw [MshSplit.skipWord, h.charAt_ptr]
    cases hc : isBlank c with
    | false =>
      have hnext : s.advance.Unread length l := h.moved (n := 1) (by simp)
      have hih := ih hnext (by omega : l.length < fuel)
      have hcons : wordLength (c :: l) = wordLength l + 1 := by simp [wordLength, hc]
      rw [advance_moved] at hih
      simp [hc, hlt, hih, hcons]
    | true => simp [hc, wordLength]

theorem stringLength_le (l : List UInt8) : stringLength l ≤ l.length := by
  induction l using stringLength.induct with
  | case1 => exact Nat.le_refl 0
  | case2 => simp_all [stringLength]
  | case3 => simp_all [stringLength]
  | case4 => simp_all [stringLength]
  | case5 => simp_all [stringLength]
  | case6 c c' l hc hesc ih =>
    rw [stringLength, if_neg hc, if_neg hesc, length_cons]
    exact succ_le_succ ih

theorem drop_stringLength (l : List UInt8) :
    l.drop (stringLength l) = [] ∨ ∃ l', l.drop (stringLength l) = quote :: l' := by
  induction l using stringLength.induct with
  | case1 => exact .inl rfl
  | case2 => exact .inr ⟨[], by simp [stringLength]⟩
  | case3 c hc => exact .inl (by simp [stringLength, hc])
  | case4 c' l => exact .inr ⟨c' :: l, by simp [stringLength]⟩
  | case5 c c' l hc hesc ih =>
    rw [stringLength, if_neg hc, if_pos hesc]
    exact ih
  | case6 c c' l hc hesc ih =>
    rw [stringLength, if_neg hc, if_neg hesc]
    exact ih

/-- A round in a string: two characters are skipped if the first one escapes a quote. -/
theorem skipString_cons {c : UInt8} (h : s.Unread length (c :: l)) (hc : c ≠ quote) :
    s.skipString length (fuel + 1) =
      if c = backslash ∧ l.head? = some quote then s.advance.advance.skipString length fuel
      else s.advance.skipString length fuel := by
  have hbehind : s.charAt length (s.ptr + 1) = some (l.getD 0 0) := h.charAt (k := 1) (by simp)
  have hquote : l.getD 0 0 = quote ↔ l.head? = some quote := by
    cases l with
    | nil => decide
    | cons c' l => simp
  have hgoes : c ≠ quote ∧ s.position < length := ⟨hc, h.position_lt⟩
  rw [MshSplit.skipString, h.charAt_ptr, hbehind]
  simp only [getD_cons_zero, bind_eq_bind, bind_some, if_pos hgoes, hquote]
  by_cases hesc : c = backslash
  · rw [if_pos hesc]
    by_cases hhead : l.head? = some quote
    · rw [if_pos hhead, if_pos ⟨hesc, hhead⟩]
    · rw [if_neg hhead, if_neg fun h => hhead h.2]
  · rw [if_neg hesc, if_neg fun h => hesc h.1]

/-- **A string** is skipped. -/
theorem skipString (h : s.Unread length l) (hfuel : l.length < fuel) :
    s.skipString length fuel = some (s.moved (stringLength l)) := by
  have hstop : ∀ {s : MshSplit} {l fuel}, s.Unread length l → l = [] ∨ l.head? = some quote →
      s.skipString length (fuel + 1) = some s := by
    intro s l fuel h hl
    rw [MshSplit.skipString, h.charAt_ptr]
    rcases hl with rfl | hl
    · simp [h.position_nil]
    · obtain ⟨l, rfl⟩ := head?_eq_some_iff.1 hl
      simp
  induction l using stringLength.induct generalizing s fuel with
  | case1 =>
    obtain ⟨fuel, rfl⟩ : ∃ m, fuel = m + 1 := ⟨fuel - 1, by omega⟩
    exact hstop h (.inl rfl)
  | case2 | case4 c' l =>
    obtain ⟨fuel, rfl⟩ : ∃ m, fuel = m + 1 := ⟨fuel - 1, by omega⟩
    rw [hstop h (.inr rfl)]
    simp [stringLength]
  | case3 c hc =>
    rw [length_singleton] at hfuel
    obtain ⟨fuel, rfl⟩ : ∃ m, fuel = m + 2 := ⟨fuel - 2, by omega⟩
    have hnext : s.advance.Unread length [] := h.moved (n := 1) (Nat.le_refl 1)
    rw [h.skipString_cons hc, if_neg (by simp), hstop hnext (.inl rfl), stringLength, if_neg hc]
    rfl
  | case5 c c' l hc hesc ih =>
    -- a quote that is escaped
    rw [length_cons, length_cons] at hfuel
    obtain ⟨fuel, rfl⟩ : ∃ m, fuel = m + 1 := ⟨fuel - 1, by omega⟩
    have hnext : s.advance.advance.Unread length l := h.moved (n := 2) (by simp)
    rw [h.skipString_cons hc, if_pos ⟨hesc.1, by rw [hesc.2]; rfl⟩, ih hnext (by omega),
      stringLength, if_neg hc, if_pos hesc, advance_moved, advance_moved]
  | case6 c c' l hc hesc ih =>
    rw [length_cons] at hfuel
    obtain ⟨fuel, rfl⟩ : ∃ m, fuel = m + 1 := ⟨fuel - 1, by omega⟩
    have hnext : s.advance.Unread length (c' :: l) := h.moved (n := 1) (by simp)
    rw [h.skipString_cons hc, if_neg (by simpa using hesc), ih hnext (by omega), stringLength,
      if_neg hc, if_neg hesc, advance_moved]

end Unread

/-! ### The outer loop -/

/-- An argument stands in the buffer, with a zero behind it. -/
structure Ended (length : ℕ) (s : MshSplit) (a : Arg) : Prop where
  le : a.start + a.text.length ≤ length
  cmd_eq : ∀ k ≤ a.text.length, s.cmd (a.start + k) = a.text.getD k 0

/-- An argument is ended, or it is a word that the next blank will end. -/
def Passed (length : ℕ) (s : MshSplit) (l : List UInt8) (a : Arg) : Prop :=
  s.Ended length a ∧ a.start + a.text.length < s.position ∨
    a.start + a.text.length = s.position ∧ (∃ c ∈ l.head?, isBlank c = true) ∧
      ∀ k < a.text.length, s.cmd (a.start + k) = a.text.getD k 0

theorem tokenize_dropWhile (p : ℕ) (l : List UInt8) :
    tokenize (p + (l.length - (l.dropWhile isBlank).length)) (l.dropWhile isBlank) =
      tokenize p l := by
  induction l generalizing p with
  | nil => rfl
  | cons c l ih =>
    cases hc : isBlank c with
    | false => simp [hc]
    | true =>
      have hle := (dropWhile_sublist isBlank (l := l)).length_le
      have hsum : p + ((c :: l).length - (l.dropWhile isBlank).length) =
          p + 1 + (l.length - (l.dropWhile isBlank).length) := by
        rw [length_cons]
        omega
      rw [dropWhile_cons, if_pos hc, hsum, ih, tokenize, if_pos hc]

theorem Passed.ended {a : Arg} (ha : s.Passed length l a) (h : s.Unread length l)
    (h' : s'.Unread length (l.dropWhile isBlank))
    (hbefore : ∀ i < s.position, s'.cmd i = s.cmd i)
    (hzero : ∀ i, s.position ≤ i → i < s'.position → s'.cmd i = 0) :
    s'.Ended length a ∧ a.start + a.text.length < s'.position := by
  have hlen := h.length_eq
  have hlen' := h'.length_eq
  rcases ha with ⟨hended, hlt⟩ | ⟨hend, ⟨c, hc, hblank⟩, htext⟩
  · have hle := (dropWhile_sublist isBlank (l := l)).length_le
    refine ⟨⟨hended.le, fun k hk => ?_⟩, by omega⟩
    rw [hbefore _ (by omega), hended.cmd_eq k hk]
  · obtain ⟨l, rfl⟩ := head?_eq_some_iff.1 hc
    have hle := (dropWhile_sublist isBlank (l := l)).length_le
    rw [dropWhile_cons, if_pos hblank] at hlen'
    rw [length_cons] at hlen
    refine ⟨⟨by omega, fun k hk => ?_⟩, by omega⟩
    rcases Nat.lt_or_eq_of_le hk with hlt | rfl
    · rw [hbefore _ (by omega), htext k hlt]
    · -- the blank behind the word
      rw [hzero _ (by omega) (by omega), getD_eq_default _ _ (Nat.le_refl _)]

theorem Ended.cstring {a : Arg} (h : s.Ended length a) :
    ∃ t, s.cstring length (length + 1) a.start = some t := by
  have hzero : s.cmd (a.start + a.text.length) = 0 := by
    rw [h.cmd_eq _ (Nat.le_refl _), getD_eq_default _ _ (Nat.le_refl _)]
  have hread : ∀ fuel i, i ≤ a.start + a.text.length → a.start + a.text.length - i < fuel →
      ∃ t, s.cstring length fuel i = some t := by
    intro fuel
    induction fuel with
    | zero => exact fun i _ hlt => absurd hlt (Nat.not_lt_zero _)
    | succ fuel ih =>
      intro i hi hfuel
      have hle := h.le
      rw [MshSplit.cstring, MshSplit.charAt, if_pos (by omega)]
      by_cases hc : s.cmd i = 0
      · exact ⟨[], by simp [hc]⟩
      · have hne : i ≠ a.start + a.text.length := fun heq => hc (heq ▸ hzero)
        obtain ⟨t, ht⟩ := ih (i + 1) (by omega) (by omega)
        exact ⟨s.cmd i :: t, by simp [hc, ht]⟩
  have hle := h.le
  exact hread _ _ (Nat.le_add_right ..) (by omega)

theorem exists_mapM {α β : Type} {f : α → Option β} {l : List α} (h : ∀ a ∈ l, ∃ b, f a = some b) :
    ∃ l', l.mapM f = some l' := by
  induction l with
  | nil => exact ⟨[], rfl⟩
  | cons a l ih =>
    obtain ⟨b, hb⟩ := h a (mem_cons_self ..)
    obtain ⟨l', hl'⟩ := ih fun a ha => h a (mem_cons_of_mem _ ha)
    exact ⟨b :: l', by simp [hb, hl']⟩

/-- One more argument. -/
def withArg (i : ℕ) (s : MshSplit) : MshSplit := { s with argv := s.argv ++ [i] }

theorem Unread.stringArg (h : s.Unread length (quote :: l)) (hroom : s.argv.length < argMax) :
    s.stringArg argMax length = some ((s.withArg (s.position + 1)).moved (stringLength l + 1)) := by
  have hlen := h.length_eq
  rw [length_cons] at hlen
  have hnext : (s.advance.withArg s.advance.ptr).Unread length l :=
    (h.moved (n := 1) (by simp)).congr rfl rfl fun _ _ => rfl
  have hadd : s.advance.addArg argMax = some (s.advance.withArg s.advance.ptr) := if_pos hroom
  have hptr : s.advance.ptr = s.position + 1 := by rw [advance, h.ptr_eq]
  rw [MshSplit.stringArg, hadd, bind_eq_bind, bind_some,
    hnext.skipString (by omega), hptr, ← advance_moved]
  rfl

theorem Unread.wordArg {c : UInt8} (h : s.Unread length (c :: l)) (hc : isBlank c = false)
    (hroom : s.argv.length < argMax) :
    s.wordArg argMax length = some ((s.withArg s.position).moved (wordLength l + 1)) := by
  have hlen := h.length_eq
  have hnext : (s.withArg s.ptr).Unread length (c :: l) := h.congr rfl rfl fun _ _ => rfl
  have hadd : s.addArg argMax = some (s.withArg s.ptr) := if_pos hroom
  have hcons : wordLength (c :: l) = wordLength l + 1 := by simp [wordLength, hc]
  rw [MshSplit.wordArg, hadd, bind_eq_bind, bind_some, hnext.skipWord (by omega), hcons, h.ptr_eq]

theorem tokenize_quote (p : ℕ) (l : List UInt8) :
    tokenize p (quote :: l) = ⟨p + 1, l.take (stringLength l)⟩ ::
      tokenize (p + 1 + stringLength l + 1) (l.drop (stringLength l + 1)) := by
  rw [tokenize, if_neg (by decide), if_pos rfl]

theorem tokenize_word (p : ℕ) {c : UInt8} (hc : isBlank c = false) (hq : c ≠ quote)
    (l : List UInt8) :
    tokenize p (c :: l) = ⟨p, c :: l.take (wordLength l)⟩ ::
      tokenize (p + 1 + wordLength l) (l.drop (wordLength l)) := by
  rw [tokenize, if_neg (by simp [hc]), if_neg hq]

theorem drop_wordLength (l : List UInt8) :
    l.drop (wordLength l) = [] ∨ ∃ c ∈ (l.drop (wordLength l)).head?, isBlank c = true := by
  have hdrop : l.drop (wordLength l) = l.dropWhile fun c => !isBlank c := by
    calc l.drop (wordLength l)
        = (l.takeWhile (fun c => !isBlank c) ++ l.dropWhile fun c => !isBlank c).drop
            (wordLength l) := by rw [takeWhile_append_dropWhile]
      _ = l.dropWhile fun c => !isBlank c := drop_left
  have hhead := head?_dropWhile_not (fun c => !isBlank c) l
  rw [hdrop]
  cases hl : l.dropWhile fun c => !isBlank c with
  | nil => exact .inl rfl
  | cons c l' =>
    rw [hl] at hhead
    exact .inr ⟨c, rfl, by simpa using hhead⟩

theorem getD_take {k : ℕ} (hk : k < n) : (l.take n).getD k 0 = l.getD k 0 := by
  rw [getD_eq_getElem?_getD, getD_eq_getElem?_getD, getElem?_take_of_lt hk]

theorem Unread.text (h : s.Unread length l) (hn : n ≤ l.length) :
    ∀ k < (l.take n).length, s.cmd (s.position + k) = (l.take n).getD k 0 := by
  intro k hk
  rw [length_take] at hk
  rw [h.cmd_eq k (by omega), getD_take (by omega)]

theorem Unread.ended (h : s.Unread length l) : s.Ended length ⟨s.position, l⟩ :=
  ⟨Nat.le_of_eq h.length_eq, h.cmd_eq⟩

theorem Ended.congr {a : Arg} (h : s.Ended length a)
    (hcmd : ∀ i ≤ a.start + a.text.length, s'.cmd i = s.cmd i) : s'.Ended length a :=
  ⟨h.le, fun k hk => by rw [hcmd _ (Nat.add_le_add_left hk _), h.cmd_eq k hk]⟩

/-- **The outer loop** appends the arguments that are left, as many as there is room for. -/
theorem loop_spec (done : List Arg) (h : s.Unread length l) (hfuel : l.length < fuel)
    (hargv : s.argv = done.map Arg.start) (hle : done.length ≤ argMax)
    (hdone : ∀ a ∈ done, s.Passed length l a) :
    ∃ s', loop argMax length fuel s = some s' ∧
      s'.argv = ((done ++ tokenize s.position l).take argMax).map Arg.start ∧
      ∀ a ∈ (done ++ tokenize s.position l).take argMax, s'.Ended length a := by
  induction fuel generalizing s l done with
  | zero => exact absurd hfuel (Nat.not_lt_zero _)
  | succ fuel ih =>
    have hlen := h.length_eq
    rw [loop]
    cases hl : l with
    | nil =>
      subst hl
      refine ⟨s, if_neg (by rw [h.position_nil]; exact Nat.lt_irrefl _), ?_, fun a ha => ?_⟩
      · rw [tokenize, append_nil, take_of_length_le hle, hargv]
      · rw [tokenize, append_nil, take_of_length_le hle] at ha
        rcases hdone a ha with ⟨hended, -⟩ | ⟨-, ⟨c, hc, -⟩, -⟩
        · exact hended
        · cases hc
    | cons c l' =>
      rw [← hl]
      obtain ⟨s₁, hs₁, hunread, hargv₁, hbefore, hzero⟩ := h.strip (by omega : l.length < length + 1)
      have hended := fun a ha => (hdone a ha).ended h hunread hbefore hzero
      have htokens := tokenize_dropWhile s.position l
      have hpos₁ : s.position + (l.length - (l.dropWhile isBlank).length) = s₁.position := by
        have hlen₁ := hunread.length_eq
        have hle := (dropWhile_sublist isBlank (l := l)).length_le
        omega
      rw [hpos₁] at htokens
      rw [← htokens, if_pos (by rw [hl] at h; exact h.position_lt), hs₁]
      simp only [bind_eq_bind, bind_some]
      have hcount : s₁.argv.length = done.length := by rw [hargv₁, hargv, length_map]
      by_cases hmany : done.length ≥ argMax
      · -- there is no room for another argument
        have hall : done.length = argMax := Nat.le_antisymm hle hmany
        obtain ⟨printed, hprinted⟩ := exists_mapM (f := s₁.cstring length (length + 1))
          (l := s₁.argv) (by
            rw [hargv₁, hargv]
            intro i hi
            obtain ⟨a, ha, rfl⟩ := List.mem_map.1 hi
            exact (hended a ha).1.cstring)
        refine ⟨{ s₁ with printed := printed }, ?_, ?_, fun a ha => ?_⟩
        · rw [if_pos (by rw [hcount]; exact hmany), hprinted, bind_some]
        · rw [take_left' hall]
          exact hargv₁.trans hargv
        · rw [take_left' hall] at ha
          exact (hended a ha).1.congr fun _ _ => rfl
      · rw [if_neg (by rw [hcount]; exact hmany)]
        have hroom : done.length < argMax := Nat.lt_of_not_le hmany
        have hblank := head?_dropWhile_not isBlank l
        have hshort : (l.dropWhile isBlank).length ≤ l.length :=
          (dropWhile_sublist isBlank).length_le
        generalize l.dropWhile isBlank = l₁ at hunread hblank hshort ⊢
        cases l₁ with
        | nil =>
          refine ⟨s₁, if_pos (Nat.le_of_eq hunread.position_nil.symm), ?_, fun a ha => ?_⟩
          · rw [tokenize, append_nil, take_of_length_le hle, hargv₁, hargv]
          · rw [tokenize, append_nil, take_of_length_le hle] at ha
            exact (hended a ha).1
        | cons c l₂ =>
          have hc : isBlank c = false := hblank
          rw [length_cons] at hshort
          rw [if_neg (Nat.not_le_of_lt hunread.position_lt), hunread.charAt_ptr]
          simp only [getD_cons_zero, bind_some]
          -- the arguments with the next one
          have hroom₁ : s₁.argv.length < argMax := by rw [hcount]; exact hroom
          have hsnoc : ∀ a, (done ++ [a]).length ≤ argMax := by
            intro a
            rw [length_append, length_singleton]
            exact hroom
          have hcat : ∀ a args, done ++ a :: args = (done ++ [a]) ++ args := by simp
          have hstarts : ∀ a : Arg, s₁.argv ++ [a.start] = (done ++ [a]).map Arg.start := by
            intro a
            rw [hargv₁, hargv, map_append]
            rfl
          have hmem : ∀ {a a'}, a' ∈ done ++ [a] → a' ∈ done ∨ a' = a := by simp
          by_cases hquote : c = quote
          · -- a string
            subst hquote
            rw [if_pos rfl, hunread.stringArg hroom₁, bind_some, tokenize_quote, hcat]
            have hlast : ((s₁.withArg (s₁.position + 1)).moved (stringLength l₂ + 1)).Unread length
                (l₂.drop (stringLength l₂)) :=
              (hunread.moved (n := stringLength l₂ + 1)
                (succ_le_succ (Unread.stringLength_le l₂))).congr rfl rfl fun _ _ => rfl
            have hbehind : s₁.advance.Unread length l₂ := hunread.moved (n := 1) (by simp)
            rcases Unread.drop_stringLength l₂ with hnil | ⟨l₃, hl₃⟩
            · -- it ends with the line
              have hrest : l₂.drop (stringLength l₂ + 1) = [] :=
                drop_eq_nil_of_le (le_succ_of_le (drop_eq_nil_iff.1 hnil))
              rw [hnil] at hlast
              rw [hrest, tokenize, append_nil, take_of_length_le (hsnoc _)]
              refine ⟨_, if_pos (Nat.le_of_eq hlast.position_nil.symm), hstarts ⟨_, _⟩,
                fun a ha => ?_⟩
              rcases hmem ha with ha | rfl
              · exact (hended a ha).1.congr fun _ _ => rfl
              · rw [take_of_length_le (drop_eq_nil_iff.1 hnil)]
                exact hbehind.ended.congr fun _ _ => rfl
            · -- its closing quote is cleared
              have hrest : l₂.drop (stringLength l₂ + 1) = l₃ := by
                rw [← drop_drop, hl₃]
                rfl
              rw [hl₃] at hlast
              rw [if_neg (Nat.not_le_of_lt hlast.position_lt), hlast.clear, Option.bind_some, hrest]
              have hpos : s₁.position + 1 + stringLength l₂ =
                  ((s₁.withArg (s₁.position + 1)).moved (stringLength l₂ + 1)).position := by
                show _ = s₁.position + (stringLength l₂ + 1)
                omega
              generalize ht : (s₁.withArg (s₁.position + 1)).moved (stringLength l₂ + 1) = t
                at hlast hpos ⊢
              have hcmd : t.cmd = s₁.cmd := by rw [← ht]; rfl
              have hargv₂ : t.argv = s₁.argv ++ [s₁.position + 1] := by rw [← ht]; rfl
              have hn := Unread.stringLength_le l₂
              have hl₃' : l₃.length < fuel := by
                have hdrop := congrArg List.length hl₃
                rw [length_drop, length_cons] at hdrop
                omega
              have hkeep : ∀ i ≠ t.position, update t.cmd t.position 0 i = s₁.cmd i := by
                intro i hi
                rw [update_of_ne hi, hcmd]
              rw [hpos]
              refine ih _ (s := { t with cmd := update t.cmd t.position 0 }.advance)
                ((hlast.moved (n := 1) (by simp)).congr rfl rfl fun i hi => ?_) hl₃'
                (hargv₂.trans (hstarts ⟨_, _⟩)) (hsnoc _) fun a ha => .inl ?_
              · have hle : t.position + 1 ≤ i := hi
                exact update_of_ne (by omega) ..
              · show _ ∧ _ < t.position + 1
                rcases hmem ha with ha | rfl
                · obtain ⟨hended, hlt⟩ := hended a ha
                  exact ⟨hended.congr fun i hi => hkeep i (by omega), by omega⟩
                · have hlen₂ : (l₂.take (stringLength l₂)).length = stringLength l₂ := by
                    rw [length_take]
                    omega
                  have hend := hlast.length_eq
                  dsimp only
                  refine ⟨⟨by dsimp only; omega, fun k hk => ?_⟩, by omega⟩
                  rcases Nat.lt_or_eq_of_le hk with hlt | rfl
                  · exact (hkeep _ (by dsimp only at hlt ⊢; omega)).trans
                      (hbehind.text hn k hlt)
                  · rw [getD_eq_default _ _ (Nat.le_refl _)]
                    have hzero : s₁.position + 1 + (l₂.take (stringLength l₂)).length =
                        t.position := by omega
                    show update t.cmd t.position 0 _ = 0
                    rw [hzero, update_self]
          · -- a word
            rw [if_neg hquote, hunread.wordArg hc hroom₁, bind_some,
              tokenize_word _ hc hquote, hcat]
            have hlast : ((s₁.withArg s₁.position).moved (wordLength l₂ + 1)).Unread length
                (l₂.drop (wordLength l₂)) :=
              (hunread.moved (n := wordLength l₂ + 1)
                (succ_le_succ (Unread.wordLength_le l₂))).congr rfl rfl fun _ _ => rfl
            have hpos : ((s₁.withArg s₁.position).moved (wordLength l₂ + 1)).position =
                s₁.position + 1 + wordLength l₂ := by
              show s₁.position + (wordLength l₂ + 1) = _
              omega
            rcases drop_wordLength l₂ with hnil | hnext
            · rw [hnil] at hlast ⊢
              rw [tokenize, append_nil, take_of_length_le (hsnoc _)]
              refine ⟨_, if_pos (Nat.le_of_eq hlast.position_nil.symm), hstarts ⟨_, _⟩,
                fun a ha => ?_⟩
              rcases hmem ha with ha | rfl
              · exact (hended a ha).1.congr fun _ _ => rfl
              · rw [take_of_length_le (drop_eq_nil_iff.1 hnil)]
                exact hunread.ended.congr fun _ _ => rfl
            · -- the blank behind it is still to be cleared
              have hmore : ¬ ((s₁.withArg s₁.position).moved (wordLength l₂ + 1)).position ≥
                  length := by
                obtain ⟨c', hc', -⟩ := hnext
                obtain ⟨l₃, hl₃⟩ := head?_eq_some_iff.1 hc'
                rw [hl₃] at hlast
                exact Nat.not_le_of_lt hlast.position_lt
              rw [if_neg hmore, ← hpos]
              refine ih _ hlast ?_ (hstarts ⟨_, _⟩) (hsnoc _) fun a ha => ?_
              · rw [length_drop]
                omega
              · rcases hmem ha with ha | rfl
                · obtain ⟨hended, hlt⟩ := hended a ha
                  refine .inl ⟨hended.congr fun _ _ => rfl, ?_⟩
                  rw [hpos]
                  omega
                · have htake : (c :: l₂).take (wordLength l₂ + 1) = c :: l₂.take (wordLength l₂) :=
                    take_succ_cons
                  have htext := hunread.text (n := wordLength l₂ + 1)
                    (succ_le_succ (Unread.wordLength_le l₂))
                  have hn := Unread.wordLength_le l₂
                  rw [htake] at htext
                  refine .inr ⟨?_, hnext, htext⟩
                  rw [hpos, length_cons, length_take]
                  dsimp only
                  omega

end MshSplit

/-- **`msh_split`** ends, without an access outside of `cmd[0..length]`.  It returns the first
`FINSH_ARG_MAX` arguments of the line, which stand in the buffer and are ended by zeros. -/
theorem mshSplit_eq (argMax : ℕ) (cmd : ℕ → UInt8) (length : ℕ) (hnul : cmd length = 0) :
    ∃ s, mshSplit argMax cmd length = some s ∧
      s.argv = ((tokenize 0 ((List.range length).map cmd)).take argMax).map Arg.start ∧
      ∀ a ∈ (tokenize 0 ((List.range length).map cmd)).take argMax,
        a.start + a.text.length ≤ length ∧
        (∀ (k : ℕ) (hk : k < a.text.length), s.cmd (a.start + k) = a.text[k]) ∧
        s.cmd (a.start + a.text.length) = 0 := by
  have hunread : MshSplit.Unread length ⟨cmd, 0, 0, [], []⟩ ((List.range length).map cmd) := by
    refine ⟨rfl, by simp, fun k hk => ?_⟩
    rw [length_map, length_range] at hk
    show cmd (0 + k) = _
    rw [Nat.zero_add, getD_eq_getElem?_getD, getElem?_map]
    rcases Nat.lt_or_eq_of_le hk with hlt | rfl
    · rw [getElem?_range hlt]
      rfl
    · rw [getElem?_eq_none (by simp), hnul]
      rfl
  obtain ⟨s, hs, hargv, hended⟩ := MshSplit.loop_spec [] hunread
    (by simp : _ < length + 1) rfl (Nat.zero_le argMax) nofun
  refine ⟨s, hs, hargv, fun a ha => ⟨(hended a ha).le, fun k hk => ?_, ?_⟩⟩
  · rw [(hended a ha).cmd_eq k (Nat.le_of_lt hk), getD_eq_getElem _ _ hk]
  · rw [(hended a ha).cmd_eq _ (Nat.le_refl _), getD_eq_default _ _ (Nat.le_refl _)]

/-- `a "b\"c"` -/
def quotedLine : List UInt8 := [97, 0x20, quote, 98, backslash, quote, 99, quote]

theorem mshSplit_eq_quotedLine :
    ∃ s, mshSplit 8 (fun i => quotedLine.getD i 0) 8 = some s ∧ s.argv = [0, 3] ∧
      s.cmd 1 = 0 ∧ s.cmd 7 = 0 := by
  obtain ⟨s, hs, hargv, hended⟩ := mshSplit_eq 8 (fun i => quotedLine.getD i 0) 8 rfl
  have htokens : (tokenize 0 ((List.range 8).map fun i => quotedLine.getD i 0)).take 8 =
      [⟨0, [97]⟩, ⟨3, [98, backslash, quote, 99]⟩] := by
    decide +kernel
  rw [htokens] at hargv hended
  exact ⟨s, hs, hargv, (hended ⟨0, [97]⟩ (by simp)).2.2,
    (hended ⟨3, [98, backslash, quote, 99]⟩ (by simp)).2.2⟩

/-! ### Arguments in quotes -/

/-- A command line with the arguments in quotes. -/
def quotedArgs (args : List (List UInt8)) : List UInt8 :=
  args.flatMap fun a => quote :: (a ++ [quote, 0x20])

/-- An argument that can stand in quotes: it has none, and no backslash before the closing one. -/
def Quotable (a : List UInt8) : Prop := quote ∉ a ∧ a.getLast? ≠ some backslash

theorem stringLength_append {a : List UInt8} (ha : Quotable a) (l : List UInt8) :
    stringLength (a ++ quote :: l) = a.length := by
  obtain ⟨hquote, hlast⟩ := ha
  induction a with
  | nil => cases l <;> simp [stringLength]
  | cons c a ih =>
    obtain ⟨hc, hquote⟩ := not_or.1 (mt mem_cons.2 hquote)
    cases a with
    | nil =>
      have hlast : c ≠ backslash := by simpa using hlast
      have hend := ih hquote (by simp)
      rw [nil_append] at hend
      rw [cons_append, nil_append, stringLength, if_neg (Ne.symm hc), if_neg (by simp [hlast]), hend]
      rfl
    | cons d a =>
      have hd : d ≠ quote := fun h => hquote (h ▸ mem_cons_self)
      rw [cons_append, cons_append, stringLength, if_neg (Ne.symm hc), if_neg (by simp [hd]),
        ← cons_append, ih hquote (by simpa using hlast), length_cons]
      rfl

theorem tokenize_quotedArgs {args : List (List UInt8)} (hargs : ∀ a ∈ args, Quotable a) (p : ℕ) :
    (tokenize p (quotedArgs args)).map Arg.text = args := by
  induction args generalizing p with
  | nil => rw [quotedArgs, flatMap_nil, tokenize, map_nil]
  | cons a args ih =>
    have hline : quotedArgs (a :: args) = quote :: (a ++ quote :: 0x20 :: quotedArgs args) := by
      simp [quotedArgs]
    have hdrop : (a ++ quote :: 0x20 :: quotedArgs args).drop (a.length + 1) =
        0x20 :: quotedArgs args := by
      rw [drop_append]
      simp
    rw [hline, MshSplit.tokenize_quote, stringLength_append (hargs a mem_cons_self), hdrop, tokenize,
      if_pos (by decide), map_cons, ih fun b hb => hargs b (mem_cons_of_mem a hb)]
    simp

/-- **What is written in quotes is what a command gets**: the arguments begin at `argv`, and each
has a zero behind it. -/
theorem mshSplit_quotedArgs (argMax : ℕ) (args : List (List UInt8)) (cmd : ℕ → UInt8)
    (hargs : ∀ a ∈ args, Quotable a) (hmax : args.length ≤ argMax)
    (hcmd : ∀ k ≤ (quotedArgs args).length, cmd k = (quotedArgs args).getD k 0) :
    ∃ s, mshSplit argMax cmd (quotedArgs args).length = some s ∧
      Forall₂ (fun p a => (∀ (k : ℕ) (hk : k < a.length), s.cmd (p + k) = a[k]) ∧
        s.cmd (p + a.length) = 0) s.argv args := by
  have hunread : MshSplit.Unread (quotedArgs args).length ⟨cmd, 0, 0, [], []⟩ (quotedArgs args) :=
    ⟨rfl, Nat.zero_add _, fun k hk => by simpa using hcmd k hk⟩
  have htexts := tokenize_quotedArgs hargs 0
  obtain ⟨s, hs, hargv, hended⟩ := MshSplit.loop_spec [] hunread (Nat.lt_succ_self _) rfl
    (Nat.zero_le argMax) (by simp)
  obtain ⟨tokens, htokens⟩ : ∃ tokens, tokens = tokenize 0 (quotedArgs args) := ⟨_, rfl⟩
  rw [← htokens] at htexts
  have htake : tokens.take argMax = tokens := by
    have hlength := congrArg List.length htexts
    rw [length_map] at hlength
    exact take_of_length_le (Nat.le_trans (Nat.le_of_eq hlength) hmax)
  rw [nil_append, ← htokens, htake] at hargv hended
  refine ⟨s, hs, ?_⟩
  rw [hargv, ← htexts, forall₂_map_left_iff, forall₂_map_right_iff, forall₂_same]
  intro a ha
  refine ⟨fun k hk => ?_, ?_⟩
  · rw [(hended a ha).cmd_eq k (Nat.le_of_lt hk), getD_eq_getElem _ _ hk]
  · rw [(hended a ha).cmd_eq _ (Nat.le_refl _), getD_eq_default _ _ (Nat.le_refl _)]

/-- `"a b" "" ` -/
theorem mshSplit_quotedArgs_blank :
    ∃ s, mshSplit 8 (fun k => (quotedArgs [[97, 0x20, 98], []]).getD k 0) 9 = some s ∧
      s.argv.length = 2 := by
  obtain ⟨s, hs, hargs⟩ := mshSplit_quotedArgs 8 [[97, 0x20, 98], []] _
    (by simp [Quotable, quote, backslash]) (by decide) fun _ _ => rfl
  exact ⟨s, hs, hargs.length_eq⟩

end RtThread
