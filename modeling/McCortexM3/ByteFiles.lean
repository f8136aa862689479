import Mathlib.Algebra.Order.Group.Nat

/-!
# Files as byte strings

Named files, each a string of bytes, and descriptors that each have a file and a position.  An
observer sees what the operations on descriptors return; a history is accepted when every operation
returns what it does on the byte strings, whichever descriptors the bytes have been written through.

## Main definitions

* `List.overwrite` — bytes replace those from a position on.
* `FileEvent`, `ByteFiles.accept`, `ByteFiles.Accepts` — the operations, and the histories.

## Main results

* `List.getElem?_overwrite`, `List.length_overwrite` — only the range of the bytes changes.
* `ByteFiles.Accepts.append` — a history that goes on.
* `ByteFiles.write_spec` — what a write in a history does.
-/

set_option linter.all false

variable {Fd Name B : Type*}

namespace List

/-- The bytes `bs` replace those of `l` from `pos` on. -/
def overwrite (l : List B) (pos : ℕ) (bs : List B) : List B :=
  l.take pos ++ bs ++ l.drop (pos + bs.length)

@[simp] theorem overwrite_nil (l : List B) (pos : ℕ) : l.overwrite pos [] = l := by
  simp [overwrite]

theorem length_overwrite {l : List B} {pos : ℕ} (h : pos ≤ l.length) (bs : List B) :
    (l.overwrite pos bs).length = max l.length (pos + bs.length) := by
  simp only [overwrite, length_append, length_take, length_drop]
  omega

theorem getElem?_overwrite {l : List B} {pos : ℕ} (h : pos ≤ l.length) (bs : List B) (i : ℕ) :
    (l.overwrite pos bs)[i]? =
      if pos ≤ i ∧ i < pos + bs.length then bs[i - pos]? else l[i]? := by
  have htake : (l.take pos).length = pos := by simpa using h
  rw [overwrite, append_assoc]
  by_cases hlow : i < pos
  · rw [getElem?_append_left (by omega), getElem?_take_of_lt hlow, if_neg (by omega)]
  · rw [getElem?_append_right (by omega), htake]
    by_cases hhigh : i < pos + bs.length
    · rw [getElem?_append_left (by omega), if_pos ⟨by omega, hhigh⟩]
    · rw [getElem?_append_right (by omega), getElem?_drop, if_neg (by omega)]
      congr 1
      omega

end List

/-- Where an offset counts from. -/
inductive Whence
  | seekSet
  | seekCur
  | seekEnd
  deriving DecidableEq

/-- What an observer sees of a descriptor: it is opened for a file (which may be emptied, and which
the position may be at the end of), or opening it fails; bytes are read; bytes are written, of which
the operation takes `n`; the position is set, or this fails; it is closed; and an access is outside
of the data of its file. -/
inductive FileEvent (Fd Name B : Type*)
  | opened (fd : Fd) (name : Name) (trunc append : Bool)
  | refused (fd : Fd)
  | read (fd : Fd) (count : ℕ) (bytes : List B)
  | wrote (fd : Fd) (bytes : List B) (n : ℕ)
  | sought (fd : Fd) (offset : ℤ) (whence : Whence) (result : Option ℕ)
  | closed (fd : Fd)
  | fault (fd : Fd)

/-- The contents of the files, and the file and the position of every descriptor in use. -/
@[ext] structure ByteFiles (Fd Name B : Type*) where
  content : Name → Option (List B)
  descriptor : Fd → Option (Name × ℕ)

namespace ByteFiles

variable [DecidableEq Fd] [DecidableEq Name] [DecidableEq B]

/-- No file. -/
def empty : ByteFiles Fd Name B := ⟨fun _ => none, fun _ => none⟩

/-- The position of the descriptor becomes `pos`. -/
def move (b : ByteFiles Fd Name B) (fd : Fd) (name : Name) (pos : ℕ) : ByteFiles Fd Name B :=
  { b with descriptor := Function.update b.descriptor fd (some (name, pos)) }

/-- The position that an offset leads to. -/
def target (length pos : ℕ) (offset : ℤ) : Whence → ℤ
  | .seekSet => offset
  | .seekCur => offset + pos
  | .seekEnd => offset + length

/-- The files after an operation, if it returns what the byte strings say.  A write may fail, and
takes no byte then. -/
def accept (b : ByteFiles Fd Name B) : FileEvent Fd Name B → Option (ByteFiles Fd Name B)
  | .opened fd name trunc append =>
    let c := if trunc = true then [] else (b.content name).getD []
    some ({ b with content := Function.update b.content name (some c) }.move fd name
      (if append = true then c.length else 0))
  | .refused _ => some b
  | .read fd count bytes => (b.descriptor fd).bind fun (name, pos) =>
    (b.content name).bind fun c =>
      if bytes = (c.drop pos).take count then some (b.move fd name (pos + bytes.length)) else none
  | .wrote fd bytes n => (b.descriptor fd).bind fun (name, pos) => (b.content name).bind fun c =>
    if n = 0 then some b
    else if n = bytes.length ∧ pos ≤ c.length then
      some ({ b with
        content := Function.update b.content name (some (c.overwrite pos bytes)) }.move fd name
          (pos + n))
    else none
  | .sought fd offset whence result => (b.descriptor fd).bind fun (name, pos) =>
    (b.content name).bind fun c =>
      let t := target c.length pos offset whence
      if 0 ≤ t ∧ t ≤ c.length then
        if result = some t.toNat then some (b.move fd name t.toNat) else none
      else if result = none then some b else none
  | .closed fd => some { b with descriptor := Function.update b.descriptor fd none }
  | .fault _ => none

/-- The history leads from no file to the files `b`. -/
def Accepts (tr : List (FileEvent Fd Name B)) (b : ByteFiles Fd Name B) : Prop :=
  tr.foldlM accept empty = some b

theorem accepts_nil : Accepts [] (empty : ByteFiles Fd Name B) := rfl

variable {tr post : List (FileEvent Fd Name B)} {b b' : ByteFiles Fd Name B}
  {e : FileEvent Fd Name B}

theorem Accepts.append (h : Accepts tr b) (he : b.accept e = some b') : Accepts (tr ++ [e]) b' := by
  rw [Accepts, List.foldlM_append, h]
  show (b.accept e >>= fun b => some b) = some b'
  rw [he]
  rfl

theorem Accepts.of_append (h : Accepts (tr ++ e :: post) b) :
    ∃ b₁ b₂, Accepts tr b₁ ∧ b₁.accept e = some b₂ ∧ Accepts (tr ++ [e]) b₂ := by
  rw [Accepts, List.foldlM_append] at h
  obtain ⟨b₁, hb₁, h⟩ := Option.bind_eq_some_iff.1 h
  rw [List.foldlM_cons] at h
  obtain ⟨b₂, hb₂, -⟩ := Option.bind_eq_some_iff.1 h
  have hbefore : Accepts tr b₁ := hb₁
  exact ⟨b₁, b₂, hbefore, hb₂, hbefore.append hb₂⟩

theorem Accepts.no_fault (h : Accepts tr b) (fd : Fd) : .fault fd ∉ tr := by
  intro hmem
  obtain ⟨pre, post, rfl⟩ := List.append_of_mem hmem
  obtain ⟨b₁, b₂, -, haccept, -⟩ := h.of_append
  cases haccept

/-- **A write replaces its range and nothing else**: the file does not get shorter, the bytes of the
range are those written, and all others are as before, in this file and in every other one. -/
structure Writes (c c' : Name → Option (List B)) (name : Name) (pos : ℕ) (bytes : List B) : Prop where
  length : ((c name).getD []).length ≤ ((c' name).getD []).length
  range : ∀ i < bytes.length, ((c' name).getD [])[pos + i]? = bytes[i]?
  other : ∀ i, (i < pos ∨ pos + bytes.length ≤ i) → ((c' name).getD [])[i]? = ((c name).getD [])[i]?
  files : ∀ name' ≠ name, c' name' = c name'

theorem write_spec {fd : Fd} {bytes : List B} {n : ℕ} (h : b.accept (.wrote fd bytes n) = some b')
    (hn : n ≠ 0) : ∃ name pos, b.descriptor fd = some (name, pos) ∧ n = bytes.length ∧
      Writes b.content b'.content name pos bytes := by
  obtain ⟨⟨name, pos⟩, hfd, h⟩ := Option.bind_eq_some_iff.1 h
  obtain ⟨c, hc, h⟩ := Option.bind_eq_some_iff.1 h
  simp only [hn, if_false, Option.ite_none_right_eq_some, Option.some.injEq] at h
  obtain ⟨⟨rfl, hpos⟩, rfl⟩ := h
  have hlength := List.length_overwrite hpos bytes
  refine ⟨name, pos, hfd, rfl, ?_, fun i hi => ?_, fun i hi => ?_, fun name' hne => ?_⟩
  · simp only [move, Function.update_self, hc, Option.getD_some, hlength]
    omega
  · simp only [move, Function.update_self, Option.getD_some, List.getElem?_overwrite hpos]
    rw [if_pos (by omega)]
    congr 1
    omega
  · simp only [move, Function.update_self, hc, Option.getD_some, List.getElem?_overwrite hpos]
    rw [if_neg (by omega)]
  · exact Function.update_of_ne hne ..

end ByteFiles
