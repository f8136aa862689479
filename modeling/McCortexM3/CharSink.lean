import Mathlib.Data.List.GetD
import Mathlib.Data.UInt

/-!
# Characters written one behind the other

A sink takes characters one behind the other, and can be asked whether the next one is kept.  A
list keeps all of them; a limited buffer keeps those whose place is not behind its last one, while
its position moves on.  What is written may depend on the sink at some characters only, where one of
two continuations is written: the first one if the character is kept.

## Main definitions

* `CharSink`, `CharSink.puts` — sinks, and the characters of a list written to one.
* `CharSink.Piece`, `CharSink.text` — what is written, and what a list gets of it.
* `LimitedBuffer` — a part of a memory with 32-bit addresses, which go round.
* `CharSink.advance` — how far the position of a limited buffer moves.

## Main results

* `LimitedBuffer.mem_puts`, `LimitedBuffer.mem_written_puts` — what a limited buffer keeps, and
  where it has stored something.
* `CharSink.length_emitted` — the position moves on by `advance` while it does not go round.
-/

set_option linter.all false

/-- Characters are written one behind the other. -/
class CharSink (α : outParam Type) (σ : Type) where
  /-- The next character. -/
  put : α → σ → σ
  /-- The next character is kept. -/
  fits : σ → Bool

namespace CharSink

open List

variable {α σ : Type} [CharSink α σ]

/-- The characters of a list. -/
def puts (l : List α) (o : σ) : σ := l.foldl (fun o c => put c o) o

@[simp] theorem puts_nil (o : σ) : puts ([] : List α) o = o := rfl

@[simp] theorem puts_cons (c : α) (l : List α) (o : σ) : puts (c :: l) o = puts l (put c o) := rfl

theorem puts_append (l l' : List α) (o : σ) : puts (l ++ l') o = puts l' (puts l o) :=
  foldl_append

/-- A list keeps all characters. -/
instance : CharSink α (List α) where
  put c l := l ++ [c]
  fits _ := true

@[simp] theorem puts_list (l o : List α) : puts l o = o ++ l := by
  induction l generalizing o with
  | nil => rw [puts_nil, append_nil]
  | cons c l ih =>
    rw [puts_cons, ih]
    exact append_assoc o [c] l

/-! ### Pieces -/

/-- What is written: some characters; or one character, and what follows when it is kept and when it
is not. -/
inductive Piece (α : Type)
  | chars (l : List α)
  | choice (c : α) (kept lost : List α)

namespace Piece

/-- What is written to the sink `o`. -/
def chosen (o : σ) : Piece α → List α
  | chars l => l
  | choice c kept lost => c :: if fits o then kept else lost

/-- What is written when the character is kept. -/
def text : Piece α → List α
  | chars l => l
  | choice c kept _ => c :: kept

/-- The piece is written. -/
def write (o : σ) (p : Piece α) : σ := puts (p.chosen o) o

end Piece

/-- The pieces are written. -/
def writeAll (ps : List (Piece α)) (o : σ) : σ := ps.foldl Piece.write o

/-- What a list gets. -/
def text (ps : List (Piece α)) : List α := ps.flatMap Piece.text

/-- The characters that the sink `o` gets. -/
def emitted : List (Piece α) → σ → List α
  | [], _ => []
  | p :: ps, o => p.chosen o ++ emitted ps (p.write o)

@[simp] theorem writeAll_nil (o : σ) : writeAll ([] : List (Piece α)) o = o := rfl

@[simp] theorem writeAll_cons (p : Piece α) (ps : List (Piece α)) (o : σ) :
    writeAll (p :: ps) o = writeAll ps (p.write o) := rfl

theorem writeAll_append (ps ps' : List (Piece α)) (o : σ) :
    writeAll (ps ++ ps') o = writeAll ps' (writeAll ps o) :=
  foldl_append

@[simp] theorem text_nil : text ([] : List (Piece α)) = [] := rfl

@[simp] theorem text_cons (p : Piece α) (ps : List (Piece α)) :
    text (p :: ps) = p.text ++ text ps := rfl

@[simp] theorem text_append (ps ps' : List (Piece α)) : text (ps ++ ps') = text ps ++ text ps' :=
  flatMap_append

theorem writeAll_eq (ps : List (Piece α)) (o : σ) : writeAll ps o = puts (emitted ps o) o := by
  induction ps generalizing o with
  | nil => rfl
  | cons p ps ih =>
    rw [writeAll_cons, ih, emitted, puts_append]
    rfl

theorem writeAll_list (ps : List (Piece α)) (o : List α) : writeAll ps o = o ++ text ps := by
  induction ps generalizing o with
  | nil => rw [writeAll_nil, text_nil, append_nil]
  | cons p ps ih =>
    have hp : p.write o = o ++ p.text := by
      cases p with
      | chars l => exact puts_list l o
      | choice c kept lost => exact puts_list (c :: kept) o
    rw [writeAll_cons, ih, hp, text_cons, append_assoc]

/-- How far the position moves from `at`, when the characters up to the place `room` are kept. -/
def advance (room : ℕ) : ℕ → List (Piece α) → ℕ
  | pos, [] => pos
  | pos, .chars l :: ps => advance room (pos + l.length) ps
  | pos, .choice _ kept lost :: ps =>
    advance room (pos + 1 + (if pos ≤ room then kept else lost).length) ps

/-- A character that goes with two continuations of different lengths is not kept: its place is
behind `room`, and the addresses from `base` on have not gone round before it. -/
def Late (base room : ℕ) : ℕ → List (Piece α) → Prop
  | _, [] => False
  | pos, .chars l :: ps => Late base room (pos + l.length) ps
  | pos, .choice _ kept lost :: ps =>
    (kept.length ≠ lost.length ∧ room < pos ∧ base + pos < 2 ^ 32) ∨
      Late base room (pos + 1 + kept.length) ps

instance Late.decidable (base room : ℕ) :
    ∀ (pos : ℕ) (ps : List (Piece α)), Decidable (Late base room pos ps)
  | _, [] => inferInstanceAs (Decidable False)
  | _, .chars _ :: ps => Late.decidable base room _ ps
  | _, .choice _ _ _ :: ps => @instDecidableOr _ _ inferInstance (Late.decidable base room _ ps)

/-- If a continuation has not the length of the one that a list gets, it has one character more. -/
def Piece.Longer : Piece α → Prop
  | .chars _ => True
  | .choice _ kept lost => kept.length ≤ lost.length ∧ lost.length ≤ kept.length + 1

theorem le_advance (room pos : ℕ) (ps : List (Piece α)) : pos ≤ advance room pos ps := by
  induction ps generalizing pos with
  | nil => exact le_rfl
  | cons p ps ih =>
    cases p with
    | chars l => exact (Nat.le_add_right _ _).trans (ih _)
    | choice c kept lost => exact (Nat.le_add_right _ _).trans ((Nat.le_add_right _ _).trans (ih _))

end CharSink

open CharSink

/-! ### Limited buffers -/

/-- A memory with 32-bit addresses, the place of the next character and the last place that is
written to.  The history variable `written` are the places that have been written to. -/
structure LimitedBuffer (α : Type) where
  mem : ℕ → α
  pos : UInt32
  last : UInt32
  written : List ℕ

namespace LimitedBuffer

open UInt32 (le_iff_toNat_le ofNat ofNat_add toNat_add toNat_ofNat' toNat_sub)

variable {α : Type} {b : LimitedBuffer α}

/-- A character is stored at an address. -/
def store (x : UInt32) (c : α) (b : LimitedBuffer α) : LimitedBuffer α :=
  { b with mem := Function.update b.mem x.toNat c, written := b.written ++ [x.toNat] }

instance : CharSink α (LimitedBuffer α) where
  put c b := { (if b.pos ≤ b.last then b.store b.pos c else b) with pos := b.pos + 1 }
  fits b := b.pos ≤ b.last

@[simp] theorem pos_put (c : α) (b : LimitedBuffer α) : (put c b).pos = b.pos + 1 := rfl

@[simp] theorem last_put (c : α) (b : LimitedBuffer α) : (put c b).last = b.last := by
  show (if b.pos ≤ b.last then b.store b.pos c else b).last = b.last
  split <;> rfl

theorem mem_put (c : α) (b : LimitedBuffer α) :
    (put c b).mem = if b.pos ≤ b.last then Function.update b.mem b.pos.toNat c else b.mem := by
  show (if b.pos ≤ b.last then b.store b.pos c else b).mem = _
  split <;> rfl

theorem written_put (c : α) (b : LimitedBuffer α) :
    (put c b).written = if b.pos ≤ b.last then b.written ++ [b.pos.toNat] else b.written := by
  show (if b.pos ≤ b.last then b.store b.pos c else b).written = _
  split <;> rfl

theorem pos_puts (l : List α) (b : LimitedBuffer α) : (puts l b).pos = b.pos + .ofNat l.length := by
  induction l generalizing b with
  | nil => exact (UInt32.add_zero _).symm
  | cons c l ih =>
    rw [puts_cons, ih, pos_put, List.length_cons, ofNat_add, UInt32.add_assoc, UInt32.add_comm 1]
    rfl

@[simp] theorem last_puts (l : List α) (b : LimitedBuffer α) : (puts l b).last = b.last := by
  induction l generalizing b with
  | nil => rfl
  | cons c l ih => rw [puts_cons, ih, last_put]

/-- **What is kept**: each character at its place, if that is not behind the last one. -/
theorem mem_puts (l : List α) (b : LimitedBuffer α) (hl : l.length ≤ 2 ^ 32) (x : ℕ) :
    (puts l b).mem x =
      if x ≤ b.last.toNat then l.getD (ofNat x - b.pos).toNat (b.mem x) else b.mem x := by
  induction l generalizing b with
  | nil => simp
  | cons c l ih =>
    rw [List.length_cons] at hl
    have hlt := b.last.toNat_lt
    have hpos := b.pos.toNat_lt
    rw [puts_cons, ih _ (by omega), last_put, pos_put, mem_put]
    by_cases hx : x ≤ b.last.toNat
    · rw [if_pos hx, if_pos hx]
      have hxn : (ofNat x).toNat = x := by
        rw [toNat_ofNat']
        exact Nat.mod_eq_of_lt (by omega)
      have hone : (1 : UInt32).toNat = 1 := rfl
      have hsub := toNat_sub (ofNat x) b.pos
      have hsub' := toNat_sub (ofNat x) (b.pos + 1)
      rw [toNat_add, hone] at hsub'
      rw [hxn] at hsub hsub'
      by_cases he : x = b.pos.toNat
      · -- the character is stored here, and no other one comes back to this place
        have hfit : b.pos ≤ b.last := le_iff_toNat_le.2 (by omega)
        have hzero : (ofNat x - b.pos).toNat = 0 := by omega
        have hback : l.length ≤ (ofNat x - (b.pos + 1)).toNat := by omega
        rw [if_pos hfit, hzero, List.getD_cons_zero, List.getD_eq_default _ _ hback, he,
          Function.update_self]
      · have hsucc : (ofNat x - b.pos).toNat = (ofNat x - (b.pos + 1)).toNat + 1 := by
          omega
        rw [hsucc, List.getD_cons_succ]
        split
        · rw [Function.update_of_ne he]
        · rfl
    · rw [if_neg hx, if_neg hx]
      split
      · next hfit =>
        rw [le_iff_toNat_le] at hfit
        exact Function.update_of_ne (by omega) ..
      · rfl

/-- **Where something is stored.** -/
theorem mem_written_puts (l : List α) (b : LimitedBuffer α) (x : ℕ) :
    x ∈ (puts l b).written ↔ x ∈ b.written ∨
      ∃ i < l.length, x = (b.pos + .ofNat i).toNat ∧ x ≤ b.last.toNat := by
  induction l generalizing b with
  | nil => simp
  | cons c l ih =>
    have hfirst : x ∈ (put c b).written ↔ x ∈ b.written ∨ x = b.pos.toNat ∧ x ≤ b.last.toNat := by
      rw [written_put]
      split
      · next hfit =>
        rw [le_iff_toNat_le] at hfit
        rw [List.mem_append, List.mem_singleton]
        constructor
        · rintro (h | rfl)
          · exact .inl h
          · exact .inr ⟨rfl, hfit⟩
        · rintro (h | ⟨h, -⟩)
          · exact .inl h
          · exact .inr h
      · next hfit =>
        rw [le_iff_toNat_le] at hfit
        refine ⟨.inl, ?_⟩
        rintro (h | ⟨rfl, h⟩)
        · exact h
        · exact absurd h hfit
    have hnext : ∀ i, b.pos + 1 + ofNat i = b.pos + ofNat (i + 1) := by
      intro i
      rw [ofNat_add, UInt32.add_assoc, UInt32.add_comm 1]
      rfl
    rw [puts_cons, ih, hfirst, last_put, pos_put, or_assoc]
    refine or_congr_right ⟨?_, ?_⟩
    · rintro (⟨rfl, hle⟩ | ⟨i, hi, rfl, hle⟩)
      · exact ⟨0, Nat.succ_pos _, by simp, hle⟩
      · exact ⟨i + 1, Nat.succ_lt_succ hi, by rw [hnext], hle⟩
    · rintro ⟨i, hi, rfl, hle⟩
      cases i with
      | zero => exact .inl ⟨by simp, hle⟩
      | succ i => exact .inr ⟨i, Nat.lt_of_succ_lt_succ hi, by rw [hnext], hle⟩

/-- **The position** moves on by `advance` while it does not go round. -/
theorem length_emitted {base room pos : ℕ} (ps : List (Piece α)) {b : LimitedBuffer α}
    (hb : b.pos.toNat = base + pos) (hlast : b.last.toNat = base + room)
    (h : base + advance room pos ps < 2 ^ 32 ∨ base + pos + (emitted ps b).length < 2 ^ 32) :
    pos + (emitted ps b).length = advance room pos ps := by
  induction ps generalizing pos b with
  | nil => rfl
  | cons p ps ih =>
    -- the piece that is chosen is that of `advance`
    obtain ⟨n, hn, hadv⟩ : ∃ n, (p.chosen b).length = n ∧
        advance room pos (p :: ps) = advance room (pos + n) ps := by
      cases p with
      | chars l => exact ⟨l.length, rfl, rfl⟩
      | choice c kept lost =>
        have hfits : fits b = decide (pos ≤ room) := by
          show decide (b.pos ≤ b.last) = _
          rw [decide_eq_decide, le_iff_toNat_le]
          omega
        refine ⟨_, rfl, ?_⟩
        rw [Piece.chosen, hfits, List.length_cons, advance]
        simp only [decide_eq_true_eq]
        congr 1
        omega
    have hle := le_advance room (pos + n) ps
    rw [emitted, List.length_append, hn, hadv] at h ⊢
    have hb' : (p.write b).pos.toNat = base + (pos + n) := by
      rw [Piece.write, pos_puts, hn, toNat_add, toNat_ofNat', hb]
      omega
    have hlast' : (p.write b).last.toNat = base + room := by rw [Piece.write, last_puts, hlast]
    have hrest := ih hb' hlast' (by omega)
    omega

theorem emitted_getElem? {base room pos : ℕ} (ps : List (Piece α)) {b : LimitedBuffer α}
    (hb : b.pos.toNat = base + pos) (hlast : b.last.toNat = base + room) {i : ℕ}
    (hi : pos + i ≤ room) : (emitted ps b)[i]? = (text ps)[i]? := by
  induction ps generalizing pos b i with
  | nil => rfl
  | cons p ps ih =>
    have hchosen : p.chosen b = p.text := by
      cases p with
      | chars l => rfl
      | choice c kept lost =>
        have hfits : fits b = true := by
          show decide (b.pos ≤ b.last) = true
          rw [decide_eq_true_eq, le_iff_toNat_le]
          omega
        rw [Piece.chosen, hfits]
        rfl
    rw [emitted, text_cons, hchosen]
    rcases Nat.lt_or_ge i p.text.length with hlt | hge
    · rw [List.getElem?_append_left hlt, List.getElem?_append_left hlt]
    · have hround := b.last.toNat_lt
      rw [List.getElem?_append_right hge, List.getElem?_append_right hge]
      have hpos : (p.write b).pos.toNat = base + (pos + p.text.length) := by
        rw [Piece.write, pos_puts, hchosen, toNat_add, toNat_ofNat', hb]
        omega
      exact ih hpos (by rw [Piece.write, last_puts, hlast]) (by omega)

section

variable {σ : Type} [CharSink α σ]

/-- The characters are at least as many as those of the text, and the difference is at most one for
each piece. -/
theorem length_text_le {ps : List (Piece α)} (hps : ∀ p ∈ ps, p.Longer) (o : σ) :
    (text ps).length ≤ (emitted ps o).length ∧
      (emitted ps o).length ≤ (text ps).length + ps.length := by
  induction ps generalizing o with
  | nil => exact ⟨le_rfl, le_rfl⟩
  | cons p ps ih =>
    obtain ⟨hle, hge⟩ := ih (fun q hq => hps q (List.mem_cons_of_mem p hq)) (p.write o)
    have hp := hps p List.mem_cons_self
    have hpiece : p.text.length ≤ (p.chosen o).length ∧
        (p.chosen o).length ≤ p.text.length + 1 := by
      cases p with
      | chars l => exact ⟨le_rfl, Nat.le_succ _⟩
      | choice c kept lost =>
        unfold Piece.chosen Piece.text
        rw [List.length_cons, List.length_cons]
        split
        · exact ⟨le_rfl, Nat.le_succ _⟩
        · exact ⟨Nat.succ_le_succ hp.1, Nat.succ_le_succ hp.2⟩
    rw [emitted, text_cons, List.length_append, List.length_append, List.length_cons]
    omega

end

/-- **As many characters as a list gets**, when no character is late, and only then. -/
theorem length_emitted_eq_iff {base room pos : ℕ} {ps : List (Piece α)} {b : LimitedBuffer α}
    (hps : ∀ p ∈ ps, p.Longer) (hb : b.pos = .ofNat (base + pos)) (hbase : base ≤ b.last.toNat)
    (hlast : b.last.toNat = base + room) (hlen : pos + (text ps).length < 2 ^ 32) :
    (emitted ps b).length = (text ps).length ↔ ¬ Late base room pos ps := by
  induction ps generalizing pos b with
  | nil => exact ⟨fun _ => id, fun _ => rfl⟩
  | cons p ps ih =>
    have hrest := fun q hq => hps q (List.mem_cons_of_mem p hq)
    obtain ⟨hle, -⟩ := length_text_le hrest (p.write b)
    have hround := b.last.toNat_lt
    rw [text_cons, List.length_append] at hlen
    -- the position behind the piece, if as much has been written as a list gets
    have hnext : (p.chosen b).length = p.text.length →
        (p.write b).pos = .ofNat (base + (pos + p.text.length)) := by
      intro he
      rw [Piece.write, pos_puts, hb, he, ← ofNat_add, Nat.add_assoc]
    have hbase' : base ≤ (p.write b).last.toNat := by rwa [Piece.write, last_puts]
    have hlast' : (p.write b).last.toNat = base + room := by rw [Piece.write, last_puts, hlast]
    have hih := fun he => ih hrest (hnext he) hbase' hlast' (by omega)
    rw [emitted, text_cons, List.length_append, List.length_append]
    cases p with
    | chars l =>
      have hl : (Piece.text (.chars l)).length = l.length := rfl
      have hc : ((Piece.chars l).chosen b).length = l.length := rfl
      rw [Late, ← hl, ← hih rfl, hl, hc]
      omega
    | choice c kept lost =>
      obtain ⟨hlo, -⟩ := hps _ List.mem_cons_self
      have htext : (Piece.text (.choice c kept lost)).length = kept.length + 1 := rfl
      have hfits : fits b = true ↔ ¬ (room < pos ∧ base + pos < 2 ^ 32) := by
        show decide (b.pos ≤ b.last) = true ↔ _
        rw [decide_eq_true_eq, le_iff_toNat_le, hb, toNat_ofNat']
        omega
      have hassoc : pos + 1 + kept.length = pos + (Piece.text (.choice c kept lost)).length := by
        rw [htext]
        omega
      rw [Late, hassoc]
      by_cases hfit : fits b = true
      · have hc : ((Piece.choice c kept lost).chosen b).length =
            (Piece.text (.choice c kept lost)).length := by
          rw [Piece.chosen, if_pos hfit]
          rfl
        rw [hc, Nat.add_left_cancel_iff, hih hc, or_iff_right fun hlate => hfits.1 hfit hlate.2]
      · have hc : ((Piece.choice c kept lost).chosen b).length = lost.length + 1 := by
          rw [Piece.chosen, if_neg hfit]
          rfl
        have hlate : room < pos ∧ base + pos < 2 ^ 32 := by
          by_contra hnot
          exact hfit (hfits.2 hnot)
        by_cases he : kept.length = lost.length
        · rw [← he, ← htext] at hc
          rw [hc, Nat.add_left_cancel_iff, hih hc, or_iff_right fun hlate => hlate.1 he]
        · -- there is one character more, which nothing makes up for
          rw [hc, htext]
          constructor
          · intro hsum
            omega
          · exact fun hnot => absurd (.inl ⟨he, hlate⟩) hnot

end LimitedBuffer
