import McCortexM3.Paths
import Mathlib.Data.List.Induction
import Mathlib.Data.List.TakeWhile

/-!
# Normalization of paths

`dfs_normalize_path` of `dfs.c` joins a directory and a file name in a new string, and rewrites it
in place: one scan copies the names to the front, and goes back over the last one for two dots.
At the root there is nothing but the first separator to go back over.

## Main definitions

* `PathScan` — the string with the pointers `dst` and `src`, and what one round of the scan does.
* `dfsNormalizePath` — the function, with every access to the string checked.
* `Normalized` — what a normalized path is.

## Main results

* `normalized_iff` — when the result is one.
-/

set_option linter.all false

namespace RtThread

open List Nat

/-- The character that separates the components of a path. -/
def slash : UInt8 := 47

/-- The character `.`. -/
def dot : UInt8 := 46

/-- A C string, without the zero behind it. -/
structure CString where
  bytes : List UInt8
  zero_notMem : 0 ∉ bytes

theorem zero_notMem_slash : 0 ∉ [slash] := by decide

/-- Why a computation does not go on: an access outside of the string, or too little fuel. -/
inductive Fault
  | outOfBounds
  | outOfFuel
  deriving DecidableEq

/-- The string `fullpath`, with `dst` and `src` as indexes. -/
structure PathScan where
  buf : List UInt8
  dst : ℕ
  src : ℕ

namespace PathScan

/-- A character of the string is read. -/
def charAt (s : PathScan) (i : ℕ) : Except Fault UInt8 :=
  match s.buf[i]? with
  | some c => .ok c
  | none => .error .outOfBounds

/-- A character of the string is written. -/
def put (s : PathScan) (i : ℕ) (c : UInt8) : Except Fault PathScan :=
  if i < s.buf.length then .ok { s with buf := s.buf.set i c } else .error .outOfBounds

/-- `while ((*src == '/') && (*src != '\\0')) src ++;` -/
def skipSlashes : ℕ → PathScan → Except Fault PathScan
  | 0, _ => .error .outOfFuel
  | n + 1, s => do
    let c ← s.charAt s.src
    if c = slash ∧ c ≠ 0 then skipSlashes n { s with src := s.src + 1 } else .ok s

/-- `while ((c = *src++) != '\\0' && c != '/') *dst ++ = c;`, with the last `c`. -/
def copyName : ℕ → PathScan → Except Fault (PathScan × UInt8)
  | 0, _ => .error .outOfFuel
  | n + 1, s => do
    let c ← s.charAt s.src
    let s := { s with src := s.src + 1 }
    if c ≠ 0 ∧ c ≠ slash then
      let s ← s.put s.dst c
      copyName n { s with dst := s.dst + 1 }
    else .ok (s, c)

/-- `while (c == '/') c = *src++;`, which begins with such a `c`. -/
def eraseSlashes : ℕ → PathScan → Except Fault PathScan
  | 0, _ => .error .outOfFuel
  | n + 1, s => do
    let c ← s.charAt s.src
    let s := { s with src := s.src + 1 }
    if c = slash then eraseSlashes n s else .ok s

/-- `while (dst0 < dst && dst[-1] != '/') dst --;`, with the new value of `dst`. -/
def backLoop (s : PathScan) : ℕ → Except Fault ℕ
  | 0 => .ok 0
  | dst + 1 => do
    let c ← s.charAt dst
    if c ≠ slash then s.backLoop dst else .ok (dst + 1)

/-- How a round of the scan ends: it is followed by another one, it was the last one, or the result
is `NULL`. -/
inductive Round
  | next (s : PathScan)
  | last (s : PathScan)
  | null

/-- From the label `up_one` on. -/
def upOne (s : PathScan) : Except Fault Round :=
  if s.dst = 0 then .ok .null
  else do
    let dst ← s.backLoop (s.dst - 1)
    .ok (.next { s with dst := dst })

/-- From the copying of a name on. -/
def copyUp (s : PathScan) : Except Fault Round := do
  let (s, c) ← copyName s.buf.length s
  if c = slash then
    let s ← s.put s.dst slash
    let s ← eraseSlashes s.buf.length { s with dst := s.dst + 1 }
    .ok (.next { s with src := s.src - 1 })
  else .ok (.last s)

/-- One round of the scan. -/
def round (s : PathScan) : Except Fault Round := do
  let c ← s.charAt s.src
  if c = dot then
    let c₁ ← s.charAt (s.src + 1)
    if c₁ = 0 then copyUp { s with src := s.src + 1 }
    else if c₁ = slash then
      let s ← skipSlashes s.buf.length { s with src := s.src + 2 }
      .ok (.next s)
    else if c₁ = dot then
      let c₂ ← s.charAt (s.src + 2)
      if c₂ = 0 then upOne { s with src := s.src + 2 }
      else if c₂ = slash then
        let s ← skipSlashes s.buf.length { s with src := s.src + 3 }
        upOne s
      else copyUp s
    else copyUp s
  else copyUp s

/-- The scan; `none` for `NULL`. -/
def scan : ℕ → PathScan → Except Fault (Option PathScan)
  | 0, _ => .error .outOfFuel
  | n + 1, s => do
    match ← s.round with
    | .next s => scan n s
    | .last s => .ok (some s)
    | .null => .ok none

/-- What follows the scan: the end of the string is written, a separator in front of it is removed,
and an empty string becomes the root.  With `dst` at the beginning of the string, `dst - 1` is read
all the same. -/
def finish (s : PathScan) : Except Fault PathScan := do
  let s ← s.put s.dst 0
  if s.dst = 0 then .error .outOfBounds
  else
    let s := { s with dst := s.dst - 1 }
    let s ← if s.dst ≠ 0 then do
        let c ← s.charAt s.dst
        if c = slash then s.put s.dst 0 else .ok s
      else .ok s
    let c ← s.charAt 0
    if c = 0 then do
      let s ← s.put 0 slash
      s.put 1 0
    else .ok s

end PathScan

/-- The directory and the file name in one string. -/
def joinPath (directory filename : List UInt8) : List UInt8 :=
  if filename.head? ≠ some slash then directory ++ slash :: filename else filename

/-- The string `fullpath`, or `none` for a relative path without a directory.  The working directory
is `none` without `DFS_USING_WORKDIR`. -/
def fullPath (workingDirectory directory : Option CString) (filename : CString) :
    Option (List UInt8) :=
  match directory.or workingDirectory with
  | none => if filename.bytes.head? ≠ some slash then none else some filename.bytes
  | some d => some (joinPath d.bytes filename.bytes)

/-- `dfs_normalize_path` from its loop on; `none` for `NULL`. -/
def normalize (fullpath : List UInt8) : Except Fault (Option (List UInt8)) := do
  match ← PathScan.scan (fullpath.length + 1) ⟨fullpath ++ [0], 0, 0⟩ with
  | none => .ok none
  | some s =>
    let s ← s.finish
    .ok (some (s.buf.takeWhile (· ≠ 0)))

/-- `dfs_normalize_path`; `none` for `NULL`.  The memory for the string is allocated or not. -/
def dfsNormalizePath (mallocOk : Bool) (workingDirectory directory : Option CString)
    (filename : CString) : Except Fault (Option (List UInt8)) :=
  match fullPath workingDirectory directory filename with
  | none => .ok none
  | some fullpath => if mallocOk = true then normalize fullpath else .ok none

/-! ### The scan on the unread characters -/

namespace PathScan

variable {P G S Q n : List UInt8} {c : UInt8} {fuel : ℕ} {s : PathScan}

/-- The characters `P` have been written and `S` are still to be read; between them are characters
that will not be read again. -/
def scanOf (P G S : List UInt8) : PathScan := ⟨P ++ (G ++ (S ++ [0])), P.length, P.length + G.length⟩

theorem charAt_of_getElem? {i : ℕ} (h : s.buf[i]? = some c) : s.charAt i = .ok c := by
  rw [charAt, h]

theorem charAt_src {k : ℕ} (h : (S ++ [0])[k]? = some c) :
    (scanOf P G S).charAt ((scanOf P G S).src + k) = .ok c := by
  apply charAt_of_getElem?
  simp only [scanOf]
  rw [getElem?_append_right (by omega), getElem?_append_right (by omega), ← h]
  congr 1
  omega

@[simp] theorem charAt_nil (P G : List UInt8) :
    (scanOf P G []).charAt (scanOf P G []).src = .ok 0 := charAt_src (k := 0) rfl

@[simp] theorem charAt_cons (P G S : List UInt8) (c : UInt8) :
    (scanOf P G (c :: S)).charAt (scanOf P G (c :: S)).src = .ok c := charAt_src (k := 0) rfl

theorem dst_scanOf (P G S : List UInt8) : (scanOf P G S).dst = P.length := rfl

theorem advance (P G S : List UInt8) (c : UInt8) :
    { scanOf P G (c :: S) with src := (scanOf P G (c :: S)).src + 1 } = scanOf P (G ++ [c]) S := by
  simp [scanOf, Nat.add_assoc]

theorem put_dst (P G S : List UInt8) (g c : UInt8) :
    ∃ s, (scanOf P (g :: G) S).put P.length c = .ok s ∧
      { s with dst := s.dst + 1 } = scanOf (P ++ [c]) G S := by
  refine ⟨⟨P ++ c :: (G ++ (S ++ [0])), P.length, P.length + G.length + 1⟩, ?_, ?_⟩
  · simp [put, scanOf, Nat.add_assoc]
  · simp [scanOf]
    omega

theorem skipSlashes_scanOf (hfuel : S.length < fuel) (hzero : 0 ∉ S) :
    ∃ G', skipSlashes fuel (scanOf P G S) = .ok (scanOf P G' (S.dropWhile (· = slash))) := by
  induction S generalizing G fuel with
  | nil =>
    obtain ⟨k, rfl⟩ := exists_eq_succ_of_ne_zero (Nat.ne_zero_of_lt hfuel)
    refine ⟨G, ?_⟩
    rw [skipSlashes, charAt_nil]
    rfl
  | cons c S ih =>
    obtain ⟨k, rfl⟩ := exists_eq_succ_of_ne_zero (Nat.ne_zero_of_lt hfuel)
    rw [skipSlashes, charAt_cons]
    simp only [bind, Except.bind]
    by_cases hc : c = slash
    · obtain ⟨G', hG'⟩ := ih (G := G ++ [c]) (lt_of_succ_lt_succ hfuel)
        (not_mem_of_not_mem_cons hzero)
      refine ⟨G', ?_⟩
      rw [if_pos ⟨hc, by rw [hc]; decide⟩, advance, hG']
      simp [hc]
    · exact ⟨G, by simp [hc]⟩

theorem copyName_scanOf (hfuel : S.length < fuel) (hzero : 0 ∉ S) :
    (∃ G' S', S = S.takeWhile (· ≠ slash) ++ slash :: S' ∧
      copyName fuel (scanOf P G S) =
        .ok (scanOf (P ++ S.takeWhile (· ≠ slash)) G' S', slash) ∧ G' ≠ []) ∨
    (slash ∉ S ∧ ∃ s G', copyName fuel (scanOf P G S) = .ok (s, 0) ∧
      s.buf = P ++ S ++ G' ∧ s.dst = (P ++ S).length ∧ G' ≠ []) := by
  induction S generalizing P G fuel with
  | nil =>
    obtain ⟨k, rfl⟩ := exists_eq_succ_of_ne_zero (Nat.ne_zero_of_lt hfuel)
    refine .inr ⟨not_mem_nil,
      { scanOf P G [] with src := (scanOf P G []).src + 1 }, G ++ [0], ?_, ?_, ?_, ?_⟩
    · rw [copyName, charAt_nil]
      rfl
    all_goals simp [scanOf]
  | cons c S ih =>
    obtain ⟨k, rfl⟩ := exists_eq_succ_of_ne_zero (Nat.ne_zero_of_lt hfuel)
    rw [copyName, charAt_cons]
    simp only [bind, Except.bind, advance]
    rw [dst_scanOf]
    by_cases hc : c = slash
    · subst hc
      exact .inl ⟨G ++ [slash], S, by simp, by simp, by simp⟩
    · have hc0 : c ≠ 0 := fun he => hzero (he ▸ mem_cons_self ..)
      obtain ⟨g, G₁, hG₁⟩ := exists_cons_of_ne_nil
        (append_ne_nil_of_right_ne_nil G (cons_ne_nil c []))
      obtain ⟨s, hput, hs⟩ := put_dst P G₁ S g c
      rw [if_pos ⟨hc0, hc⟩, hG₁, hput]
      simp only [hs]
      rcases ih (P := P ++ [c]) (G := G₁) (lt_of_succ_lt_succ hfuel)
        (not_mem_of_not_mem_cons hzero) with ⟨G', S', hS, hcopy, hne⟩ | ⟨hno, s', G', hcopy, hs'⟩
      · refine .inl ⟨G', S', ?_, ?_, hne⟩
        · simpa [hc] using hS
        · simpa [hc] using hcopy
      · refine .inr ⟨by simp [hno, Ne.symm hc], s', G', hcopy, by simpa using hs'⟩

theorem eraseSlashes_scanOf (hfuel : S.length < fuel) (hzero : 0 ∉ S) :
    ∃ s G', eraseSlashes fuel (scanOf P G S) = .ok s ∧
      { s with src := s.src - 1 } = scanOf P G' (S.dropWhile (· = slash)) := by
  induction S generalizing G fuel with
  | nil =>
    obtain ⟨k, rfl⟩ := exists_eq_succ_of_ne_zero (Nat.ne_zero_of_lt hfuel)
    refine ⟨{ scanOf P G [] with src := (scanOf P G []).src + 1 }, G, ?_, ?_⟩
    · rw [eraseSlashes, charAt_nil]
      rfl
    · simp
  | cons c S ih =>
    obtain ⟨k, rfl⟩ := exists_eq_succ_of_ne_zero (Nat.ne_zero_of_lt hfuel)
    rw [eraseSlashes, charAt_cons]
    simp only [bind, Except.bind]
    by_cases hc : c = slash
    · obtain ⟨s, G', hs, hG'⟩ := ih (G := G ++ [c]) (lt_of_succ_lt_succ hfuel)
        (not_mem_of_not_mem_cons hzero)
      rw [if_pos hc, advance, hs]
      exact ⟨s, G', rfl, by simpa [hc] using hG'⟩
    · rw [if_neg hc]
      exact ⟨_, G, rfl, by simp [hc]⟩

theorem backLoop_of_name {rest : List UInt8} (hbuf : s.buf = Q ++ (n ++ rest))
    (hQ : Q = [] ∨ ∃ Q', Q = Q' ++ [slash]) (hn : slash ∉ n) :
    s.backLoop (Q.length + n.length) = .ok Q.length := by
  induction n using reverseRecOn generalizing rest with
  | nil =>
    rcases hQ with rfl | ⟨Q', rfl⟩
    · rfl
    · have hchar : s.charAt Q'.length = .ok slash := charAt_of_getElem? (by simp [hbuf])
      simp only [length_append, length_singleton, length_nil, Nat.add_zero]
      rw [backLoop, hchar]
      rfl
  | append_singleton m c ih =>
    have hchar : s.charAt (Q.length + m.length) = .ok c := by
      apply charAt_of_getElem?
      rw [hbuf, getElem?_append_right (by omega)]
      simp
    have hc : c ≠ slash := by
      rintro rfl
      simp at hn
    rw [length_append, length_singleton, ← Nat.add_assoc, backLoop, hchar]
    simp only [bind, Except.bind, if_pos hc]
    exact @ih (c :: rest) (by simpa using hbuf) (by simp_all)

/-! ### One round -/

theorem length_buf_scanOf (P G S : List UInt8) : S.length < (scanOf P G S).buf.length := by
  simp only [scanOf, length_append, length_singleton]
  omega

theorem copyUp_scanOf (P G : List UInt8) (hzero : 0 ∉ S) :
    (∃ G' S', S = S.takeWhile (· ≠ slash) ++ slash :: S' ∧
      copyUp (scanOf P G S) = .ok (.next (scanOf (P ++ S.takeWhile (· ≠ slash) ++ [slash]) G'
        (S'.dropWhile (· = slash))))) ∨
    (slash ∉ S ∧ ∃ s G', copyUp (scanOf P G S) = .ok (.last s) ∧
      s.buf = P ++ S ++ G' ∧ s.dst = (P ++ S).length ∧ G' ≠ []) := by
  rcases copyName_scanOf (P := P) (G := G) (length_buf_scanOf P G S) hzero with
    ⟨G', S', hS, hcopy, hne⟩ | ⟨hno, s, G', hcopy, hs⟩
  · left
    obtain ⟨g, G₁, rfl⟩ := exists_cons_of_ne_nil hne
    obtain ⟨s, hput, hs⟩ := put_dst (P ++ S.takeWhile (· ≠ slash)) G₁ S' g slash
    have hlen : S'.length < s.buf.length := by
      have hbuf := congrArg PathScan.buf hs
      simp only at hbuf
      rw [hbuf]
      exact length_buf_scanOf ..
    have hzero' : 0 ∉ S' := by
      intro hmem
      apply hzero
      rw [hS]
      exact mem_append_right _ (mem_cons_of_mem _ hmem)
    obtain ⟨s', G'', herase, hs'⟩ := eraseSlashes_scanOf
      (P := P ++ S.takeWhile (· ≠ slash) ++ [slash]) (G := G₁) hlen hzero'
    refine ⟨G'', S', hS, ?_⟩
    rw [copyUp, hcopy]
    simp only [bind, Except.bind, if_true, dst_scanOf, hput, hs, herase, hs']
  · right
    refine ⟨hno, s, G', ?_, hs⟩
    rw [copyUp, hcopy]
    rfl

theorem upOne_scanOf (G S : List UInt8) (hQ : Q = [] ∨ ∃ Q', Q = Q' ++ [slash])
    (hn : slash ∉ n) :
    upOne (scanOf (Q ++ n ++ [slash]) G S) = .ok (.next (scanOf Q (n ++ slash :: G) S)) := by
  have hbuf : (scanOf (Q ++ n ++ [slash]) G S).buf = Q ++ (n ++ slash :: (G ++ (S ++ [0]))) := by
    simp [scanOf]
  have hback : (scanOf (Q ++ n ++ [slash]) G S).backLoop (Q.length + n.length) = .ok Q.length :=
    backLoop_of_name hbuf hQ hn
  have hdst : (scanOf (Q ++ n ++ [slash]) G S).dst = Q.length + n.length + 1 := by
    simp [dst_scanOf]
    omega
  rw [upOne, hdst, if_neg (succ_ne_zero _), Nat.add_sub_cancel, hback]
  simp only [bind, Except.bind, scanOf, append_assoc, length_append, length_cons,
    length_nil, cons_append, nil_append]
  congr 3
  omega

theorem upOne_nil (G S : List UInt8) : upOne (scanOf [] G S) = .ok .null := rfl

theorem round_dot (P G : List UInt8) :
    ∃ s G', round (scanOf P G [dot]) = .ok (.last s) ∧ s.buf = P ++ G' ∧ s.dst = P.length ∧
      G' ≠ [] := by
  have hone : (scanOf P G [dot]).charAt ((scanOf P G [dot]).src + 1) = .ok 0 :=
    charAt_src (k := 1) rfl
  rcases copyUp_scanOf P (G ++ [dot]) (S := []) not_mem_nil with ⟨_, _, hS, -⟩ | ⟨-, s, G', hs, h⟩
  · cases hS
  · refine ⟨s, G', ?_, by simpa using h⟩
    rw [round, charAt_cons]
    simp only [bind, Except.bind, if_true, hone, advance, hs]

theorem round_dot_slash (P G : List UInt8) (hzero : 0 ∉ S) :
    ∃ G', round (scanOf P G (dot :: slash :: S)) =
      .ok (.next (scanOf P G' (S.dropWhile (· = slash)))) := by
  have hone : (scanOf P G (dot :: slash :: S)).charAt
      ((scanOf P G (dot :: slash :: S)).src + 1) = .ok slash := charAt_src (k := 1) rfl
  have hsrc : { scanOf P G (dot :: slash :: S) with
      src := (scanOf P G (dot :: slash :: S)).src + 2 } = scanOf P (G ++ [dot, slash]) S := by
    simp [scanOf, Nat.add_assoc]
  have hlen : S.length < (scanOf P G (dot :: slash :: S)).buf.length :=
    Nat.lt_trans (by simp only [length_cons]; omega) (length_buf_scanOf P G (dot :: slash :: S))
  obtain ⟨G', hskip⟩ := skipSlashes_scanOf (P := P) (G := G ++ [dot, slash]) hlen hzero
  refine ⟨G', ?_⟩
  rw [round, charAt_cons]
  simp only [bind, Except.bind, if_true, hone, hsrc, hskip]
  rfl

theorem round_dots (P G : List UInt8) :
    ∃ G', round (scanOf P G [dot, dot]) = upOne (scanOf P G' []) := by
  have hone : (scanOf P G [dot, dot]).charAt ((scanOf P G [dot, dot]).src + 1) = .ok dot :=
    charAt_src (k := 1) rfl
  have htwo : (scanOf P G [dot, dot]).charAt ((scanOf P G [dot, dot]).src + 2) = .ok 0 :=
    charAt_src (k := 2) rfl
  have hsrc : { scanOf P G [dot, dot] with src := (scanOf P G [dot, dot]).src + 2 } =
      scanOf P (G ++ [dot, dot]) [] := by simp [scanOf, Nat.add_assoc]
  refine ⟨G ++ [dot, dot], ?_⟩
  rw [round, charAt_cons]
  simp only [bind, Except.bind, if_true, hone, htwo, hsrc]
  rfl

theorem round_dots_slash (P G : List UInt8) (hzero : 0 ∉ S) :
    ∃ G', round (scanOf P G (dot :: dot :: slash :: S)) =
      upOne (scanOf P G' (S.dropWhile (· = slash))) := by
  have hone : (scanOf P G (dot :: dot :: slash :: S)).charAt
      ((scanOf P G (dot :: dot :: slash :: S)).src + 1) = .ok dot := charAt_src (k := 1) rfl
  have htwo : (scanOf P G (dot :: dot :: slash :: S)).charAt
      ((scanOf P G (dot :: dot :: slash :: S)).src + 2) = .ok slash := charAt_src (k := 2) rfl
  have hsrc : { scanOf P G (dot :: dot :: slash :: S) with
      src := (scanOf P G (dot :: dot :: slash :: S)).src + 3 } =
      scanOf P (G ++ [dot, dot, slash]) S := by simp [scanOf, Nat.add_assoc]
  have hlen : S.length < (scanOf P G (dot :: dot :: slash :: S)).buf.length :=
    Nat.lt_trans (by simp only [length_cons]; omega) (length_buf_scanOf P G (dot :: dot :: slash :: S))
  obtain ⟨G', hskip⟩ := skipSlashes_scanOf (P := P) (G := G ++ [dot, dot, slash]) hlen hzero
  refine ⟨G', ?_⟩
  rw [round, charAt_cons]
  simp only [bind, Except.bind, if_true, hone, htwo, hsrc, hskip]
  rfl

theorem round_name (P G : List UInt8) (hzero : 0 ∉ S) (hdot : S.takeWhile (· ≠ slash) ≠ [dot])
    (hdots : S.takeWhile (· ≠ slash) ≠ [dot, dot]) :
    round (scanOf P G S) = copyUp (scanOf P G S) := by
  match S with
  | [] =>
    rw [round, charAt_nil]
    rfl
  | c :: S =>
    rw [round, charAt_cons]
    simp only [bind, Except.bind]
    by_cases hc : c = dot
    · subst hc
      have hds : dot ≠ slash := by decide
      match S with
      | [] => exact absurd rfl hdot
      | c₁ :: S =>
        have hone : (scanOf P G (dot :: c₁ :: S)).charAt
            ((scanOf P G (dot :: c₁ :: S)).src + 1) = .ok c₁ := charAt_src (k := 1) rfl
        have hc₁ : c₁ ≠ 0 := by
          rintro rfl
          simp at hzero
        have hc₁' : c₁ ≠ slash := by
          rintro rfl
          simp [hds] at hdot
        simp only [if_true, hone, hc₁, hc₁', if_false]
        by_cases hcd : c₁ = dot
        · subst hcd
          match S with
          | [] => exact absurd rfl hdots
          | c₂ :: S =>
            have htwo : (scanOf P G (dot :: dot :: c₂ :: S)).charAt
                ((scanOf P G (dot :: dot :: c₂ :: S)).src + 2) = .ok c₂ := charAt_src (k := 2) rfl
            have hc₂ : c₂ ≠ 0 := by
              rintro rfl
              simp at hzero
            have hc₂' : c₂ ≠ slash := by
              rintro rfl
              simp [hds] at hdots
            simp only [if_true, htwo, hc₂, hc₂', if_false]
        · simp only [hcd, if_false]
    · simp only [hc, if_false]

/-! ### The scan -/

/-- What has been written for some names, with or without a separator in front. -/
def written (root : Bool) (names : List (List UInt8)) : List UInt8 :=
  (if root = true then [slash] else []) ++ trail slash names

/-- The scan has ended with these names, the last one with or without a separator behind it. -/
def Done (s : PathScan) (root : Bool) (names : List (List UInt8)) : Prop :=
  ∃ P G, s.buf = P ++ G ∧ s.dst = P.length ∧ G ≠ [] ∧
    (P = written root names ∨ ∃ l n, names = l ++ [n] ∧ n ≠ [] ∧ slash ∉ n ∧ P = written root l ++ n)

theorem written_eq (root : Bool) (names : List (List UInt8)) :
    written root names = [] ∨ ∃ Q, written root names = Q ++ [slash] := by
  induction names using reverseRecOn with
  | nil =>
    cases root with
    | false => exact .inl rfl
    | true => exact .inr ⟨[], rfl⟩
  | append_singleton l n _ => exact .inr ⟨_, by rw [written, trail_append_singleton, ← append_assoc]⟩

theorem written_append (root : Bool) (l : List (List UInt8)) (n : List UInt8) :
    written root (l ++ [n]) = written root l ++ n ++ [slash] := by simp [written]

theorem upOne_root (G S : List UInt8) :
    ∃ G', upOne (scanOf (written true []) G S) = .ok (.next (scanOf (written false []) G' S)) :=
  ⟨_, upOne_scanOf G S (Q := []) (n := []) (.inl rfl) not_mem_nil⟩

theorem upOne_name (root : Bool) (l : List (List UInt8)) (G S : List UInt8) (hn : slash ∉ n) :
    ∃ G', upOne (scanOf (written root (l ++ [n])) G S) =
      .ok (.next (scanOf (written root l) G' S)) := by
  rw [written_append]
  exact ⟨_, upOne_scanOf G S (written_eq root l) hn⟩

/-- The result of a scan with these names, when these components are still to be read: two dots are
not met with nothing written, and at most once with nothing but the separator in front, which is
gone then. -/
structure Resolves (r : Except Fault (Option PathScan)) (root : Bool)
    (names comps : List (List UInt8)) : Prop where
  done : escapes dot names comps ≤ root.toNat → ∃ s, r = .ok (some s) ∧
    Done s (root && escapes dot names comps = 0) (comps.foldl (descend dot) names)
  null : root.toNat < escapes dot names comps → r = .ok none

namespace Resolves

variable {r : Except Fault (Option PathScan)} {root : Bool} {names comps : List (List UInt8)}

theorem last (h : Done s root names) : Resolves (.ok (some s)) root names [] :=
  ⟨fun _ => ⟨s, rfl, by simpa [escapes] using h⟩, nofun⟩

theorem step (h : Resolves r root (descend dot names n) comps) (hn : n = [dot, dot] → names ≠ []) :
    Resolves r root names (n :: comps) := by
  have hesc : escapes dot names (n :: comps) = escapes dot (descend dot names n) comps := by
    rw [escapes, if_neg fun hup => hn hup.1 hup.2, Nat.zero_add]
  refine ⟨?_, ?_⟩
  · rw [hesc, foldl_cons]
    exact h.done
  · rw [hesc]
    exact h.null

theorem escapes_root (comps : List (List UInt8)) :
    escapes dot [] ([dot, dot] :: comps) = escapes dot [] comps + 1 := by
  rw [escapes, if_pos ⟨rfl, rfl⟩, Nat.add_comm]
  rfl

theorem atRoot (h : Resolves r false [] comps) : Resolves r true [] ([dot, dot] :: comps) := by
  refine ⟨?_, ?_⟩
  · intro hle
    rw [escapes_root] at hle
    obtain ⟨s, hs, hdone⟩ := h.done (le_of_succ_le_succ hle)
    refine ⟨s, hs, ?_⟩
    have hroot : descend dot [] [dot, dot] = [] := rfl
    simpa [escapes_root, hroot] using hdone
  · intro hlt
    rw [escapes_root] at hlt
    exact h.null (lt_of_succ_lt_succ hlt)

theorem nothing (comps : List (List UInt8)) :
    Resolves (.ok none) false [] ([dot, dot] :: comps) := by
  refine ⟨fun hle => ?_, fun _ => rfl⟩
  rw [escapes_root] at hle
  exact absurd hle (not_succ_le_zero _)

end Resolves

theorem scan_next {s' : PathScan} (h : s.round = .ok (.next s')) :
    scan (fuel + 1) s = scan fuel s' := by
  rw [scan, h]
  rfl

theorem scan_last {s' : PathScan} (h : s.round = .ok (.last s')) :
    scan (fuel + 1) s = .ok (some s') := by
  rw [scan, h]
  rfl

theorem scan_null (h : s.round = .ok .null) : scan (fuel + 1) s = .ok none := by
  rw [scan, h]
  rfl

theorem next_name (S : List UInt8) (hhead : S.head? ≠ some slash) :
    S = [] ∨ ∃ n, n ≠ [] ∧ slash ∉ n ∧ S.takeWhile (· ≠ slash) = n ∧
      (S = n ∨ ∃ S', S = n ++ slash :: S') := by
  rcases S.eq_nil_or_concat with rfl | hne
  · exact .inl rfl
  · refine .inr ⟨S.takeWhile (· ≠ slash), ?_, ?_, rfl, ?_⟩
    · cases S with
      | nil => simp at hne
      | cons c S =>
        have hc : c ≠ slash := by simpa using hhead
        simp [hc]
    · intro hmem
      simpa using mem_takeWhile_imp hmem
    · have happ := takeWhile_append_dropWhile (p := (· ≠ slash)) (l := S)
      cases hrest : S.dropWhile (· ≠ slash) with
      | nil =>
        rw [hrest, append_nil] at happ
        exact .inl happ.symm
      | cons c S' =>
        have hc : c = slash := by
          have hnot := head?_dropWhile_not (· ≠ slash) S
          rw [hrest] at hnot
          simpa using hnot
        subst hc
        rw [hrest] at happ
        exact .inr ⟨S', happ.symm⟩

theorem head_dropWhile (S : List UInt8) : (S.dropWhile (· = slash)).head? ≠ some slash := by
  intro h
  have hnot := head?_dropWhile_not (· = slash) S
  rw [h] at hnot
  simp at hnot

theorem resolves_up {root : Bool} {names comps : List (List UInt8)}
    (hround : s.round = upOne (scanOf (written root names) G S)) (hnames : ∀ n ∈ names, slash ∉ n)
    (h : ∀ (root : Bool) {names : List (List UInt8)} (G : List UInt8),
      (∀ n ∈ names, slash ∉ n) →
      Resolves (scan fuel (scanOf (written root names) G S)) root names comps) :
    Resolves (scan (fuel + 1) s) root names ([dot, dot] :: comps) := by
  rcases eq_nil_or_concat names with rfl | ⟨l, n, rfl⟩
  · cases root with
    | false =>
      rw [scan_null (hround.trans (upOne_nil G S))]
      exact .nothing comps
    | true =>
      obtain ⟨G', hup⟩ := upOne_root G S
      rw [scan_next (hround.trans hup)]
      exact .atRoot (h false G' nofun)
  · rw [concat_eq_append] at hround hnames ⊢
    obtain ⟨G', hup⟩ := upOne_name root l G S (hnames n (by simp))
    rw [scan_next (hround.trans hup)]
    have hl := h root G' fun m hm => hnames m (mem_append_left _ hm)
    refine .step ?_ (by simp)
    rwa [descend, if_neg (by decide), if_pos rfl, dropLast_concat]

theorem scan_spec (root : Bool) {names : List (List UInt8)} (G : List UInt8)
    (hfuel : S.length < fuel) (hzero : 0 ∉ S) (hhead : S.head? ≠ some slash)
    (hnames : ∀ n ∈ names, slash ∉ n) :
    Resolves (scan fuel (scanOf (written root names) G S)) root names (components slash S) := by
  induction fuel generalizing S G root names with
  | zero => cases hfuel
  | succ fuel ih =>
    -- what follows a name and its separator
    have hnext : ∀ {n S'} (root : Bool) {names} (G : List UInt8), S = n ++ slash :: S' →
        (∀ n ∈ names, slash ∉ n) →
        Resolves (scan fuel (scanOf (written root names) G (S'.dropWhile (· = slash)))) root names
          (components slash S') := by
      intro n S' root names G hS hnames
      rw [← components_dropWhile S']
      have hsub := (dropWhile_sublist (· = slash) (l := S'))
      refine ih root G ?_ ?_ (head_dropWhile S') hnames
      · have hlen := hsub.length_le
        rw [hS, length_append, length_cons] at hfuel
        omega
      · intro hmem
        apply hzero
        rw [hS]
        exact mem_append_right _ (mem_cons_of_mem _ (hsub.subset hmem))
    rcases next_name S hhead with rfl | ⟨n, hn, hs, htake, hS⟩
    · have hround := round_name (written root names) G hzero nofun nofun
      rcases copyUp_scanOf (written root names) G hzero with ⟨_, _, hS, -⟩ | ⟨-, s, G', hcopy, h⟩
      · cases hS
      · rw [scan_last (hround.trans hcopy), components_nil]
        exact .last ⟨_, G', by simpa using h.1, by simpa using h.2.1, h.2.2, .inl rfl⟩
    · by_cases hdot : n = [dot]
      · -- one dot
        subst hdot
        rcases hS with rfl | ⟨S', rfl⟩
        · obtain ⟨s, G', hround, hbuf, hdst, hG'⟩ := round_dot (written root names) G
          rw [scan_last hround, components_of_notMem hs hn]
          exact .step (.last ⟨_, G', hbuf, hdst, hG', .inl rfl⟩) nofun
        · have hzero' : 0 ∉ S' := fun hmem => hzero (by simp [hmem])
          obtain ⟨G', hround⟩ := round_dot_slash (written root names) G hzero'
          rw [singleton_append, scan_next hround, ← singleton_append, components_append_sep hs hn]
          exact .step (hnext root G' rfl hnames) nofun
      · by_cases hdots : n = [dot, dot]
        · subst hdots
          rcases hS with rfl | ⟨S', rfl⟩
          · obtain ⟨G', hround⟩ := round_dots (written root names) G
            rw [components_of_notMem hs hn]
            refine resolves_up hround hnames fun root names G hnames => ?_
            have hend := ih root G (S := []) (Nat.pos_of_ne_zero ?_) not_mem_nil nofun hnames
            · rwa [components_nil] at hend
            · rintro rfl
              simp at hfuel
          · have hzero' : 0 ∉ S' := fun hmem => hzero (by simp [hmem])
            obtain ⟨G', hround⟩ := round_dots_slash (written root names) G hzero'
            rw [components_append_sep hs hn]
            exact resolves_up hround hnames fun root names G hnames => hnext root G rfl hnames
        · -- any other name
          have hround := round_name (written root names) G hzero (by rwa [htake]) (by rwa [htake])
          have hdescend : descend dot names n = names ++ [n] := by simp [descend, hdot, hdots]
          have hnames' : ∀ m ∈ names ++ [n], slash ∉ m := by
            intro m hm
            rcases mem_append.1 hm with hm | hm
            · exact hnames m hm
            · rwa [mem_singleton.1 hm]
          rcases copyUp_scanOf (written root names) G hzero with
            ⟨G', S', hS', hcopy⟩ | ⟨hno, s, G', hcopy, h⟩
          · rw [htake] at hS' hcopy
            rw [scan_next (hround.trans hcopy), ← written_append]
            have hcomps : components slash S = n :: components slash S' := by
              rw [hS', components_append_sep hs hn]
            rw [hcomps]
            refine .step ?_ fun he => absurd he hdots
            rw [hdescend]
            exact hnext root G' hS' hnames'
          · have hSn : S = n := by
              rcases hS with rfl | ⟨S', rfl⟩
              · rfl
              · simp at hno
            subst hSn
            rw [scan_last (hround.trans hcopy), components_of_notMem hs hn]
            refine .step ?_ fun he => absurd he hdots
            rw [hdescend]
            exact .last ⟨_, G', h.1, h.2.1, h.2.2, .inr ⟨names, S, rfl, hn, hs, rfl⟩⟩

end PathScan

/-! ### The end of the scan -/

namespace PathScan

variable {P G Q : List UInt8} {c : UInt8} {s : PathScan} {root : Bool} {names : List (List UInt8)}

theorem takeWhile_append_zero (h : 0 ∉ P) (G : List UInt8) :
    (P ++ 0 :: G).takeWhile (· ≠ 0) = P := by
  rw [takeWhile_append_of_pos]
  · simp
  · intro c hc
    have hne : c ≠ 0 := fun he => h (he ▸ hc)
    simpa using hne

theorem finish_concat (hbuf : s.buf = Q ++ c :: G) (hdst : s.dst = Q.length + 1) (hG : G ≠ [])
    (hzero : 0 ∉ Q ++ [c]) :
    ∃ s', s.finish = .ok s' ∧
      s'.buf.takeWhile (· ≠ 0) = if Q ≠ [] ∧ c = slash then Q else Q ++ [c] := by
  obtain ⟨g, G, rfl⟩ := exists_cons_of_ne_nil hG
  have hput : s.put s.dst 0 = .ok { s with buf := Q ++ c :: 0 :: G } := by
    rw [put, if_pos (by simp [hbuf, hdst]), hbuf, hdst]
    simp
  have hQc : (Q ++ c :: 0 :: G).takeWhile (· ≠ 0) = Q ++ [c] := by
    have htake := takeWhile_append_zero hzero G
    simpa using htake
  rw [finish, hput]
  simp only [bind, Except.bind, hdst, succ_ne_zero, if_false, Nat.add_sub_cancel]
  cases Q with
  | nil =>
    have hc : c ≠ 0 := by
      rintro rfl
      simp at hzero
    exact ⟨{ s with buf := c :: 0 :: G, dst := 0 }, by simp [charAt, hc], by simpa using hQc⟩
  | cons q Q =>
    have hq : q ≠ 0 := by
      rintro rfl
      simp at hzero
    have hchar : charAt ⟨q :: Q ++ c :: 0 :: G, Q.length + 1, s.src⟩ (Q.length + 1) = .ok c :=
      charAt_of_getElem? (by simp)
    have hfirst : ∀ l, charAt ⟨q :: Q ++ l, Q.length + 1, s.src⟩ 0 = .ok q := fun l => rfl
    simp only [length_cons, ne_eq, succ_ne_zero, not_false_eq_true, if_true, hchar]
    by_cases hc : c = slash
    · have hput₂ : put ⟨q :: Q ++ c :: 0 :: G, Q.length + 1, s.src⟩ (Q.length + 1) 0 =
          .ok ⟨q :: Q ++ 0 :: 0 :: G, Q.length + 1, s.src⟩ := by simp [put]
      refine ⟨⟨q :: Q ++ 0 :: 0 :: G, Q.length + 1, s.src⟩, ?_, ?_⟩
      · simp only [hc, if_true] at hput₂ ⊢
        simp only [hput₂, hfirst, hq, if_false]
      · have hzero' : 0 ∉ q :: Q := fun hmem => hzero (mem_append_left _ hmem)
        simpa [hc] using takeWhile_append_zero hzero' (0 :: G)
    · refine ⟨⟨q :: Q ++ c :: 0 :: G, Q.length + 1, s.src⟩, ?_, ?_⟩
      · simp only [hc, if_false, hfirst, hq]
      · simpa [hc] using hQc

theorem finish_nil (hdst : s.dst = 0) (hG : s.buf ≠ []) : s.finish = .error .outOfBounds := by
  have hput : s.put s.dst 0 = .ok { s with buf := s.buf.set s.dst 0 } := by
    rw [put, hdst, if_pos (length_pos_iff.2 hG)]
  rw [finish, hput]
  simp only [bind, Except.bind, hdst, if_true]

theorem zero_notMem_written (root : Bool) (h : ∀ n ∈ names, 0 ∉ n) : 0 ∉ written root names := by
  have hs : (0 : UInt8) ≠ slash := by decide
  intro hmem
  rcases mem_append.1 hmem with hmem | hmem
  · cases root <;> simp [hs] at hmem
  · obtain ⟨n, hn, hmem⟩ := mem_flatMap.1 hmem
    rcases mem_append.1 hmem with hmem | hmem
    · exact h n hn hmem
    · exact hs (mem_singleton.1 hmem)

/-- The path of the names that have been written, with the separator in front or without. -/
theorem finish_done (h : s.Done root names) (hnames : ∀ n ∈ names, n ≠ [] ∧ slash ∉ n ∧ 0 ∉ n)
    (hne : names = [] → root = true) :
    ∃ s', s.finish = .ok s' ∧ s'.buf.takeWhile (· ≠ 0) =
      (if root = true then [slash] else []) ++ (trail slash names).dropLast := by
  obtain ⟨P, G, hbuf, hdst, hG, hP⟩ := h
  rcases eq_nil_or_concat names with rfl | ⟨l, n, rfl⟩
  · -- the root
    have hroot := hne rfl
    subst hroot
    obtain rfl : P = [slash] := by
      rcases hP with hP | ⟨l, n, hl, -⟩
      · exact hP
      · simp at hl
    obtain ⟨s', hs', hpath⟩ := finish_concat (Q := []) hbuf hdst hG (by decide)
    exact ⟨s', hs', hpath⟩
  · rw [concat_eq_append] at hnames hP ⊢
    obtain ⟨hn, hslash, hzero⟩ := hnames n (by simp)
    have hl : 0 ∉ written root l :=
      zero_notMem_written root fun m hm => (hnames m (mem_append_left _ hm)).2.2
    have hpath : (if root = true then [slash] else []) ++ (trail slash (l ++ [n])).dropLast =
        written root l ++ n := by
      rw [trail_append_singleton, dropLast_concat, written, append_assoc]
    rw [hpath]
    have hPn : P = written root l ++ n ++ [slash] ∨ P = written root l ++ n := by
      rcases hP with hP | ⟨l', n', hl', -, -, hP⟩
      · exact .inl (hP.trans (written_append root l n))
      · obtain ⟨rfl, hn'⟩ := append_inj' hl' rfl
        rw [singleton_inj] at hn'
        exact .inr (by rw [hP, hn'])
    rcases hPn with rfl | rfl
    · obtain ⟨s', hs', hpath'⟩ := finish_concat (Q := written root l ++ n) (c := slash) (G := G)
        (by rw [hbuf]; simp) (by rw [hdst]; simp; omega) hG (by simp [hl, hzero]; decide)
      refine ⟨s', hs', ?_⟩
      rw [hpath', if_pos ⟨by simp [hn], rfl⟩]
    · -- the last name has another character at its end
      obtain ⟨m, c, rfl⟩ := (eq_nil_or_concat n).resolve_left hn
      rw [concat_eq_append] at hslash hzero hbuf hdst ⊢
      have hc : c ≠ slash := by
        rintro rfl
        simp at hslash
      obtain ⟨s', hs', hpath'⟩ := finish_concat (Q := written root l ++ m) (c := c) (G := G)
        (by rw [hbuf]; simp) (by rw [hdst]; simp; omega) hG (by
          simp only [mem_append, not_or] at hzero ⊢
          exact ⟨⟨hl, hzero.1⟩, hzero.2⟩)
      refine ⟨s', hs', ?_⟩
      rw [hpath', if_neg fun h => hc h.2, append_assoc]

end PathScan

/-! ### The function -/

theorem mem_resolved {s n : List UInt8} (h : 0 ∉ s)
    (hn : n ∈ (components slash s).foldl (descend dot) []) : n ≠ [] ∧ slash ∉ n ∧ 0 ∉ n := by
  have hcomp := (mem_of_mem_foldl hn).resolve_left not_mem_nil
  obtain ⟨hne, hs⟩ := mem_components hcomp
  exact ⟨hne, hs, fun hmem => h (subset_of_mem_components hcomp hmem)⟩

/-- The string begins with a separator. -/
def isAbsolute (J : List UInt8) : Bool := J.head? = some slash

/-- How often the two dots in a string are met at the root. -/
def pathEscapes (J : List UInt8) : ℕ := escapes dot [] (components slash J)

/-- The names that a string leads to. -/
def pathNames (J : List UInt8) : List (List UInt8) := (components slash J).foldl (descend dot) []

theorem scan_fullpath {J : List UInt8} (hzero : 0 ∉ J) :
    PathScan.Resolves (PathScan.scan (J.length + 1) (PathScan.scanOf [] [] J)) (isAbsolute J) []
      (components slash J) := by
  have hnone : ∀ n ∈ ([] : List (List UInt8)), slash ∉ n := nofun
  rw [isAbsolute]
  by_cases hhead : J.head? = some slash
  · -- the first round copies the separator in front
    simp only [hhead, decide_true]
    cases J with
    | nil => cases hhead
    | cons c J =>
      obtain rfl : c = slash := Option.some_inj.1 hhead
      have hround := PathScan.round_name [] [] hzero (by simp) (by simp)
      rcases PathScan.copyUp_scanOf [] [] hzero with ⟨G', S', hS, hcopy⟩ | ⟨hno, -⟩
      · obtain rfl : J = S' := by simpa using hS
        have hsub := dropWhile_sublist (· = slash) (l := J)
        have hscan := PathScan.scan_spec true G' (lt_succ_of_le hsub.length_le)
          (fun hmem => hzero (mem_cons_of_mem _ (hsub.subset hmem)))
          (PathScan.head_dropWhile J) hnone
        rw [components_dropWhile] at hscan
        rw [components_sep_cons, length_cons, PathScan.scan_next (hround.trans hcopy)]
        simpa [PathScan.written] using hscan
      · simp at hno
  · simp only [hhead, decide_false]
    have hscan := PathScan.scan_spec false [] (lt_succ_self _) hzero hhead hnone
    exact hscan

section

variable {J : List UInt8}

theorem normalize_eq (J : List UInt8) : normalize J = (do
    match ← PathScan.scan (J.length + 1) (PathScan.scanOf [] [] J) with
    | none => .ok none
    | some s =>
      let s ← s.finish
      .ok (some (s.buf.takeWhile (· ≠ 0)))) := rfl

theorem normalize_null (hzero : 0 ∉ J) (h : (isAbsolute J).toNat < pathEscapes J) :
    normalize J = .ok none := by
  rw [normalize_eq, (scan_fullpath hzero).null h]
  rfl

theorem normalize_path (hzero : 0 ∉ J) (h : pathEscapes J ≤ (isAbsolute J).toNat) {root : Bool}
    (hroot : (isAbsolute J && pathEscapes J = 0) = root) (hne : pathNames J = [] → root = true) :
    normalize J = .ok (some ((if root = true then [slash] else []) ++
      (trail slash (pathNames J)).dropLast)) := by
  obtain ⟨s, hs, hdone⟩ := (scan_fullpath hzero).done h
  have hdone' : s.Done root (pathNames J) := by rwa [← hroot]
  obtain ⟨s', hs', hpath⟩ := PathScan.finish_done hdone' (fun n hn => mem_resolved hzero hn) hne
  rw [normalize_eq, hs]
  simp only [bind, Except.bind, hs']
  rw [hpath]

theorem normalize_nothing (hzero : 0 ∉ J) (h : pathEscapes J ≤ (isAbsolute J).toNat)
    (hroot : (isAbsolute J && pathEscapes J = 0) = false) (hnil : pathNames J = []) :
    normalize J = .error .outOfBounds := by
  obtain ⟨s, hs, P, G, hbuf, hdst, hG, hP⟩ := (scan_fullpath hzero).done h
  have hPnil : P = [] := by
    rcases hP with hP | ⟨l, n, hl, -⟩
    · have hwritten : PathScan.written false [] = [] := rfl
      have hroot' : (isAbsolute J && escapes dot [] (components slash J) = 0) = false := hroot
      have hnil' : (components slash J).foldl (descend dot) [] = [] := hnil
      rwa [hroot', hnil', hwritten] at hP
    · have hnil' : (components slash J).foldl (descend dot) [] = [] := hnil
      simp [hnil'] at hl
  subst hPnil
  have hfinish : s.finish = .error .outOfBounds :=
    PathScan.finish_nil hdst (by simpa [hbuf] using hG)
  rw [normalize_eq, hs]
  simp only [bind, Except.bind, hfinish]

end

/-- **A normalized path**: `NULL`, or a canonical absolute path that the path leads to from its
directory, and that stays as it is; without an access outside of the string. -/
def Normalized (mallocOk : Bool) (workingDirectory directory : Option CString)
    (filename : CString) : Prop :=
  match dfsNormalizePath mallocOk workingDirectory directory filename with
  | .error _ => False
  | .ok none => True
  | .ok (some path) =>
    Canonical slash dot path ∧
    path = resolveFrom slash dot (((directory.or workingDirectory).map CString.bytes).getD [])
      filename.bytes ∧
    ∀ (workingDirectory' directory' : Option CString) (p : CString), p.bytes = path →
      dfsNormalizePath true workingDirectory' directory' p = .ok (some path)

/-- In an absolute path two dots are not met at the root exactly once, and in any other one they
are. -/
def Supported (J : List UInt8) : Prop :=
  if isAbsolute J = true then pathEscapes J ≠ 1 else pathEscapes J ≠ 0

section

variable {J : List UInt8} {wd dir : Option CString} {filename : CString}

theorem zero_notMem_fullPath (h : fullPath wd dir filename = some J) : 0 ∉ J := by
  have hs : (0 : UInt8) ≠ slash := by decide
  rw [fullPath] at h
  split at h
  · split at h
    · cases h
    · cases h
      exact filename.zero_notMem
  · next d _ =>
    cases h
    rw [joinPath]
    split
    · simp [d.zero_notMem, filename.zero_notMem, hs]
    · exact filename.zero_notMem

theorem resolve_fullPath (h : fullPath wd dir filename = some J) :
    resolveFrom slash dot (((dir.or wd).map CString.bytes).getD []) filename.bytes =
      resolve slash dot J := by
  rw [fullPath] at h
  split at h
  · split at h
    · cases h
    · next hhead =>
      cases h
      exact resolveFrom_of_head (not_not.1 hhead) _
  · next d hd =>
    cases h
    rw [joinPath, hd]
    split
    · next hhead => exact resolveFrom_of_head_ne hhead _
    · next hhead => exact resolveFrom_of_head (not_not.1 hhead) _

theorem fullPath_of_absolute (h : isAbsolute filename.bytes = true) :
    fullPath wd dir filename = some filename.bytes := by
  have hhead : filename.bytes.head? = some slash := by simpa [isAbsolute] using h
  rw [fullPath]
  split
  · rw [if_neg (not_not.2 hhead)]
  · rw [joinPath, if_neg (not_not.2 hhead)]

theorem normalize_resolve (hzero : 0 ∉ J) (habs : isAbsolute J = true) (he : pathEscapes J = 0) :
    normalize J = .ok (some (resolve slash dot J)) := by
  have hroot : (isAbsolute J && pathEscapes J = 0) = true := by simp [habs, he]
  exact normalize_path hzero (by simp [he]) hroot fun _ => rfl

theorem normalize_resolved {p : CString} (hp : p.bytes = resolve slash dot J) :
    dfsNormalizePath true wd dir p = .ok (some (resolve slash dot J)) := by
  obtain ⟨names, hnames, hcanon⟩ : Canonical slash dot (resolve slash dot J) := canonical_resolve J
  obtain ⟨hresolve, hesc⟩ := resolve_absPath hnames
  have habs : isAbsolute p.bytes = true := by rw [hp]; rfl
  have hnormal := normalize_resolve p.zero_notMem habs (by rw [hp, hcanon]; exact hesc)
  rw [dfsNormalizePath, fullPath_of_absolute habs]
  simp only [if_true]
  rw [hnormal, hp, hcanon, hresolve]

theorem not_canonical_names (hzero : 0 ∉ J) (hne : pathNames J ≠ []) :
    ¬ Canonical slash dot (trail slash (pathNames J)).dropLast := by
  rintro ⟨names, -, hpath⟩
  have hnames : ∀ n ∈ pathNames J, n ≠ [] ∧ slash ∉ n ∧ 0 ∉ n := fun n hn => mem_resolved hzero hn
  obtain ⟨n, l, hl⟩ := exists_cons_of_ne_nil hne
  obtain ⟨hn, hs, -⟩ := hnames n (by simp [hl])
  obtain ⟨c, n, rfl⟩ := exists_cons_of_ne_nil hn
  rw [hl, trail_cons, dropLast_append_of_ne_nil (by simp), absPath, cons_append] at hpath
  have hc := (List.cons.inj hpath).1
  subst hc
  simp at hs

end

/-- **When `dfs_normalize_path` gives a normalized path**: when there is no memory, or two dots are
not met exactly once at the root of the joined path. -/
theorem normalized_iff (mallocOk : Bool) (workingDirectory directory : Option CString)
    (filename : CString) : Normalized mallocOk workingDirectory directory filename ↔
      mallocOk = false ∨ ∀ J ∈ fullPath workingDirectory directory filename, Supported J := by
  rw [Normalized]
  cases hfull : fullPath workingDirectory directory filename with
  | none => simp [dfsNormalizePath, hfull]
  | some J =>
    have hzero := zero_notMem_fullPath hfull
    have hresolve := resolve_fullPath hfull
    cases mallocOk with
    | false => simp [dfsNormalizePath, hfull]
    | true =>
      have hfun : dfsNormalizePath true workingDirectory directory filename = normalize J := by
        simp [dfsNormalizePath, hfull]
      have hcond : (true = false ∨ ∀ J' ∈ some J, Supported J') ↔ Supported J := by simp
      rw [hfun, hcond, hresolve]
      rcases Nat.lt_or_ge (isAbsolute J).toNat (pathEscapes J) with hlt | hle
      · -- the result is `NULL`
        have hsup : Supported J := by
          rw [Supported]
          cases habs : isAbsolute J <;> simp [habs] at hlt ⊢ <;> omega
        simp [normalize_null hzero hlt, hsup]
      · cases hroot : (isAbsolute J && pathEscapes J = 0) with
        | true =>
          obtain ⟨habs, he⟩ : isAbsolute J = true ∧ pathEscapes J = 0 := by simpa using hroot
          have hsup : Supported J := by simp [Supported, habs, he]
          rw [normalize_resolve hzero habs he]
          exact iff_of_true ⟨canonical_resolve J, rfl, fun _ _ _ => normalize_resolved⟩ hsup
        | false =>
          have hsup : ¬ Supported J := by
            rw [Supported]
            cases habs : isAbsolute J <;> simp [habs] at hle hroot ⊢ <;> omega
          by_cases hnil : pathNames J = []
          · simp [normalize_nothing hzero hle hroot hnil, hsup]
          · rw [normalize_path hzero hle hroot fun h => absurd h hnil]
            exact iff_of_false (fun h => not_canonical_names hzero hnil h.1) hsup

/-- **The separator in front is lost**: `/../a` becomes `a`. -/
theorem not_normalized : ¬ ∀ (mallocOk : Bool) (workingDirectory directory : Option CString)
    (filename : CString), Normalized mallocOk workingDirectory directory filename := by
  intro hall
  have hpath : dfsNormalizePath true none none ⟨[47, 46, 46, 47, 97], by decide⟩ =
      .ok (some [97]) := rfl
  have hnormal := hall true none none ⟨[47, 46, 46, 47, 97], by decide⟩
  rw [Normalized, hpath] at hnormal
  obtain ⟨⟨names, -, hcanon⟩, -⟩ := hnormal
  have hfirst : (97 : UInt8) = 47 := (List.cons.inj hcanon).1
  revert hfirst
  decide

end RtThread
