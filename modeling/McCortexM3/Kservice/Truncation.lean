import McCortexM3.Kservice.Pieces

/-!
# The end of the buffer

`rt_vsnprintf` cuts its text off at the end of the buffer.  Two slips concern this end: the count of
the characters that fill the field of a number leaves the sign out if the sign is not stored, so
that the field gets one character too many; and a buffer of no characters has its end in front of
its start, which the function takes for an end that has gone round.

## Main definitions

* `roomOf` — the places behind the first one that the loop may write to.
* `Truncates` — the text is cut off as it should be.
* `WritesInside` — nothing is stored outside of the buffer.

## Main results

* `truncates_iff` — `rt_vsnprintf` cuts its text off, unless a sign is late.
* `writesInside_iff` — it writes inside of the buffer, unless this has no characters.
-/

set_option linter.all false

namespace RtThread

open List Nat CharSink LimitedBuffer
open UInt32 (le_iff_toNat_le lt_iff_toNat_lt ofNat ofNat_toNat toNat toNat_add toNat_ofNat'
  toNat_sub)

/-- The buffer that the loop starts with. -/
def bufferOf (mem : ℕ → UInt8) (buf size : UInt32) : LimitedBuffer UInt8 :=
  ⟨mem, buf, endOf buf size, []⟩

/-- The number of places behind the first one that the loop may write to. -/
def roomOf (buf size : UInt32) : ℕ := (endOf buf size).toNat - buf.toNat

/-! ### The end -/

theorem le_endOf (buf size : UInt32) : buf.toNat ≤ (endOf buf size).toNat := by
  have hbuf := buf.toNat_lt
  unfold endOf
  dsimp only
  split
  · exact le_of_lt_succ hbuf
  · next h =>
    rw [lt_iff_toNat_lt] at h
    exact Nat.le_of_not_lt h

theorem toNat_endOf (buf size : UInt32) :
    (endOf buf size).toNat =
      if 0 < size.toNat ∧ buf.toNat + size.toNat ≤ 2 ^ 32 then buf.toNat + size.toNat - 1
      else 2 ^ 32 - 1 := by
  have hbuf := buf.toNat_lt
  have hsize := size.toNat_lt
  have hone : (1 : UInt32).toNat = 1 := rfl
  have htop : (0xffffffff : UInt32).toNat = 2 ^ 32 - 1 := rfl
  have hend : (buf + size - 1).toNat =
      (2 ^ 32 - 1 + (buf.toNat + size.toNat) % 2 ^ 32) % 2 ^ 32 := by
    rw [toNat_sub, toNat_add, hone]
  unfold endOf
  dsimp only
  split
  · next h =>
    rw [lt_iff_toNat_lt, hend] at h
    rw [htop, if_neg (by omega)]
  · next h =>
    rw [lt_iff_toNat_lt, hend] at h
    rw [hend]
    split_ifs <;> omega

theorem endOf_eq (buf size : UInt32) : (endOf buf size).toNat = buf.toNat + roomOf buf size := by
  have hle := le_endOf buf size
  unfold roomOf
  omega

/-! ### The end of the string -/

theorem mem_terminate (o : LimitedBuffer UInt8) (x : ℕ) :
    (terminate o).mem x =
      if x = (if o.pos ≤ o.last then o.pos else o.last).toNat then 0 else o.mem x := by
  unfold terminate
  split <;> exact Function.update_apply ..

theorem mem_written_terminate (o : LimitedBuffer UInt8) (x : ℕ) :
    x ∈ (terminate o).written ↔
      x ∈ o.written ∨ x = (if o.pos ≤ o.last then o.pos else o.last).toNat := by
  unfold terminate
  split <;>
    · unfold store
      rw [mem_append, mem_singleton]

section

variable [PrintfConfig] (strings : UInt32 → List UInt8) (fmt : List UInt8) (args : List UInt32)
  (buf size : UInt32)

/-- The characters that the loop writes to a buffer do not depend on the memory. -/
theorem rtVsnprintf_eq (mem : ℕ → UInt8) :
    rtVsnprintf strings mem buf size fmt args =
      (terminate (puts (emitted (formatPieces strings fmt args) (bufferOf mem buf size))
        (bufferOf mem buf size)),
        (ofNat
          (emitted (formatPieces strings fmt args) (bufferOf mem buf size)).length).toInt32) := by
  unfold rtVsnprintf
  dsimp only
  rw [formatLoop_eq, writeAll_eq, pos_puts]
  have hsub : ∀ n : UInt32, buf + n - buf = n := by
    intro n
    rw [UInt32.add_comm, UInt32.add_sub_cancel]
  exact congrArg (Prod.mk _) (congrArg UInt32.toInt32 (hsub _))

/-! ### Truncation -/

/-- For every memory, `rt_vsnprintf` leaves as much of the text as there is room for, and the end of
the string, and returns the length of the text. -/
structure Truncates : Prop where
  chars : ∀ mem, ∀ i < min (unlimitedText strings fmt args).length (size.toNat - 1),
    some ((rtVsnprintf strings mem buf size fmt args).1.mem (buf.toNat + i)) =
      (unlimitedText strings fmt args)[i]?
  nul : ∀ mem, (rtVsnprintf strings mem buf size fmt args).1.mem
    (buf.toNat + min (unlimitedText strings fmt args).length (size.toNat - 1)) = 0
  returned : ∀ mem, (rtVsnprintf strings mem buf size fmt args).2.toInt =
    (unlimitedText strings fmt args).length

variable {strings fmt args buf size}

theorem toInt32_ofNat_eq (n len : ℕ) :
    (ofNat n).toInt32.toInt = len ↔ len < 2 ^ 31 ∧ n % 2 ^ 32 = len := by
  have h : (ofNat n).toInt32.toInt = (n : ℤ).bmod (2 ^ 32) := Int32.toInt_ofNat'
  rw [h, Int.bmod_def]
  split_ifs <;> omega

theorem formatPieces_longer (hlt : (unlimitedText strings fmt args).length < 2 ^ 31) :
    ∀ p ∈ formatPieces strings fmt args, p.Longer := by
  rw [unlimitedText_eq] at hlt
  exact longer_of_length hlt (loopPieces_longer strings _ fmt args)

theorem returned_iff (hfmt : fmt.length < 2 ^ 32) (mem : ℕ → UInt8) :
    (rtVsnprintf strings mem buf size fmt args).2.toInt = (unlimitedText strings fmt args).length ↔
      (unlimitedText strings fmt args).length < 2 ^ 31 ∧
        ¬ Late buf.toNat (roomOf buf size) 0 (formatPieces strings fmt args) := by
  rw [rtVsnprintf_eq, toInt32_ofNat_eq]
  refine and_congr_right fun hlt => ?_
  have hlonger := formatPieces_longer hlt
  have hpieces := length_formatPieces strings fmt args
  rw [unlimitedText_eq] at hlt ⊢
  obtain ⟨hle, hge⟩ := length_text_le hlonger (bufferOf mem buf size)
  have hstart : (bufferOf mem buf size).pos = .ofNat (buf.toNat + 0) := by
    rw [Nat.add_zero, ofNat_toNat]
    rfl
  rw [← length_emitted_eq_iff hlonger hstart (le_endOf buf size) (endOf_eq buf size)
    (by rw [Nat.zero_add]; omega)]
  omega

/-- Where the end of the string is stored, if `n` characters are written. -/
def nulPlace (buf size : UInt32) (n : ℕ) : ℕ :=
  (if buf + .ofNat n ≤ endOf buf size then buf + .ofNat n else endOf buf size).toNat

theorem mem_rtVsnprintf (mem : ℕ → UInt8) (x : ℕ)
    (hlen : (emitted (formatPieces strings fmt args) (bufferOf mem buf size)).length ≤ 2 ^ 32) :
    (rtVsnprintf strings mem buf size fmt args).1.mem x =
      if x = nulPlace buf size
          (emitted (formatPieces strings fmt args) (bufferOf mem buf size)).length then 0
      else if x ≤ (endOf buf size).toNat then
        (emitted (formatPieces strings fmt args) (bufferOf mem buf size)).getD
          (ofNat x - buf).toNat (mem x)
      else mem x := by
  rw [rtVsnprintf_eq, mem_terminate, pos_puts, last_puts, mem_puts _ _ hlen]
  rfl

theorem nulPlace_eq (buf size : UInt32) (n : ℕ) (hn : n < 2 ^ 32) :
    nulPlace buf size n =
      if buf.toNat + n < 2 ^ 32 then min (buf.toNat + n) (endOf buf size).toNat
      else buf.toNat + n - 2 ^ 32 := by
  have hbuf := buf.toNat_lt
  have hend := le_endOf buf size
  have hsum : (buf + .ofNat n).toNat = (buf.toNat + n) % 2 ^ 32 := by
    rw [toNat_add, toNat_ofNat', mod_eq_of_lt hn]
  have hle : (buf + .ofNat n ≤ endOf buf size) ↔
      (buf.toNat + n) % 2 ^ 32 ≤ (endOf buf size).toNat := by
    rw [le_iff_toNat_le, hsum]
  unfold nulPlace
  rw [apply_ite toNat, hsum]
  simp only [hle]
  split_ifs <;> omega

/-- **The text** is what the memory holds from the start of the buffer on, if no sign is late. -/
theorem mem_text (hlt : (unlimitedText strings fmt args).length < 2 ^ 31)
    (hlate : ¬ Late buf.toNat (roomOf buf size) 0 (formatPieces strings fmt args))
    (mem : ℕ → UInt8) {x : ℕ} (hx : buf.toNat ≤ x) :
    (rtVsnprintf strings mem buf size fmt args).1.mem x =
      if x = nulPlace buf size (unlimitedText strings fmt args).length then 0
      else if x ≤ (endOf buf size).toNat then
        (unlimitedText strings fmt args).getD (x - buf.toNat) (mem x)
      else mem x := by
  have hlonger := formatPieces_longer hlt
  have htext := unlimitedText_eq strings fmt args
  have hstart : (bufferOf mem buf size).pos = .ofNat (buf.toNat + 0) := by
    rw [Nat.add_zero, ofNat_toNat]
    rfl
  have hlength : (emitted (formatPieces strings fmt args) (bufferOf mem buf size)).length =
      (unlimitedText strings fmt args).length := by
    rw [htext] at hlt ⊢
    exact (length_emitted_eq_iff hlonger hstart (le_endOf buf size) (endOf_eq buf size)
      (by rw [Nat.zero_add]; omega)).2 hlate
  rw [mem_rtVsnprintf mem x (by omega), hlength]
  split
  · rfl
  · split
    · next hle =>
      have hround := (endOf buf size).toNat_lt
      have hroom := endOf_eq buf size
      have hpos : (bufferOf mem buf size).pos.toNat = buf.toNat + 0 := rfl
      have hindex : (ofNat x - buf).toNat = x - buf.toNat := by
        rw [toNat_sub, toNat_ofNat']
        omega
      rw [hindex, getD_eq_getElem?_getD, getD_eq_getElem?_getD, htext,
        emitted_getElem? (formatPieces strings fmt args) hpos (endOf_eq buf size) (by omega)]
    · rfl

/-- **`rt_vsnprintf` cuts its text off** unless a sign is late, as long as neither an `int` nor the
addresses go round. -/
theorem truncates_iff (hfmt : fmt.length < 2 ^ 32) (hsize : 1 ≤ size) :
    Truncates strings fmt args buf size ↔
      ¬ Late buf.toNat (roomOf buf size) 0 (formatPieces strings fmt args) ∧
        (unlimitedText strings fmt args).length < 2 ^ 31 ∧
        (buf.toNat + (unlimitedText strings fmt args).length < 2 ^ 32 ∨
          buf.toNat + size.toNat ≤ 2 ^ 32 ∧
            (unlimitedText strings fmt args)[size.toNat - 1]? = some 0) := by
  have hbuf := buf.toNat_lt
  have hsize' : 1 ≤ size.toNat := le_iff_toNat_le.1 hsize
  have hend := toNat_endOf buf size
  have hle := le_endOf buf size
  constructor
  · rintro ⟨hchars, hnul, hreturned⟩
    obtain ⟨hlt, hlate⟩ := (returned_iff hfmt (fun _ => 1)).1 (hreturned _)
    refine ⟨hlate, hlt, ?_⟩
    rcases Nat.lt_or_ge (buf.toNat + (unlimitedText strings fmt args).length) (2 ^ 32) with h | h
    · exact .inl h
    · -- the end of the string is stored in front of the buffer
      have hplace := nulPlace_eq buf size (unlimitedText strings fmt args).length (by omega)
      have hend' := hnul fun _ => 1
      rw [if_neg (by omega)] at hplace
      rw [mem_text hlt hlate _ (Nat.le_add_right _ _), if_neg (by omega)] at hend'
      split at hend'
      · next hin =>
        have hmin : min (unlimitedText strings fmt args).length (size.toNat - 1) =
            size.toNat - 1 := by
          split_ifs at hend <;> omega
        rw [hmin] at hin hend'
        rw [Nat.add_sub_cancel_left, getD_eq_getElem?_getD] at hend'
        refine .inr ⟨by split_ifs at hend <;> omega, ?_⟩
        cases hget : (unlimitedText strings fmt args)[size.toNat - 1]? with
        | none =>
          rw [hget] at hend'
          exact absurd hend' (by decide)
        | some c =>
          rw [hget] at hend'
          exact congrArg some hend'
      · exact absurd hend' (by decide)
  · rintro ⟨hlate, hlt, hround⟩
    have hplace := nulPlace_eq buf size (unlimitedText strings fmt args).length (by omega)
    have hroom := endOf_eq buf size
    refine ⟨?_, ?_, fun mem => (returned_iff hfmt mem).2 ⟨hlt, hlate⟩⟩
    · intro mem i hi
      have hne : buf.toNat + i ≠ nulPlace buf size (unlimitedText strings fmt args).length := by
        split_ifs at hplace hend <;> omega
      have hin : buf.toNat + i ≤ (endOf buf size).toNat := by
        split_ifs at hend <;> omega
      rw [mem_text hlt hlate mem (Nat.le_add_right _ _), if_neg hne, if_pos hin,
        Nat.add_sub_cancel_left, getD_eq_getElem _ _ (by omega),
        getElem?_eq_getElem (by omega)]
    · intro mem
      rw [mem_text hlt hlate mem (Nat.le_add_right _ _)]
      rcases hround with h | ⟨hsize', hzero⟩
      · rw [if_pos]
        split_ifs at hplace hend <;> omega
      · split
        · rfl
        · next hne =>
          have hlong : size.toNat - 1 < (unlimitedText strings fmt args).length :=
            (List.getElem?_eq_some_iff.1 hzero).1
          have hmin : min (unlimitedText strings fmt args).length (size.toNat - 1) =
              size.toNat - 1 := by omega
          rw [hmin, if_pos (by split_ifs at hend <;> omega), Nat.add_sub_cancel_left,
            getD_eq_getElem?_getD, hzero]
          rfl

end

/-- The text `+5` is cut off behind its first character. -/
theorem truncates_plus_five :
    @Truncates ⟨false⟩ (fun _ => []) ("%+d".toList.map chr) [5] 0x20000000 2 :=
  (@truncates_iff ⟨false⟩ (fun _ => []) ("%+d".toList.map chr) [5] 0x20000000 2
    (by decide) (by decide)).2 ⟨by decide, by decide, .inl (by decide)⟩

/-- The sign of `a-0003` is not stored in a buffer of one character, so that the field is filled
with one character more. -/
theorem not_truncates_late_sign :
    ¬ @Truncates ⟨false⟩ (fun _ => []) ("a%05d".toList.map chr) [-3] 0x20000000 1 := by
  intro h
  have hreturned := @Truncates.returned ⟨false⟩ _ _ _ _ _ h fun _ => 0
  exact absurd hreturned (by decide)

/-! ### Writes -/

section

variable [PrintfConfig] {strings : UInt32 → List UInt8} {fmt : List UInt8} {args : List UInt32}
  {buf size : UInt32}

/-- Nothing is stored outside of the buffer. -/
def WritesInside (buf size : UInt32) (o : LimitedBuffer UInt8) : Prop :=
  ∀ x ∈ o.written, buf.toNat ≤ x ∧ x < buf.toNat + size.toNat

theorem mem_written_rtVsnprintf (mem : ℕ → UInt8) (x : ℕ) :
    x ∈ (rtVsnprintf strings mem buf size fmt args).1.written ↔
      (∃ i < (emitted (formatPieces strings fmt args) (bufferOf mem buf size)).length,
        x = (buf + .ofNat i).toNat ∧ x ≤ (endOf buf size).toNat) ∨
      x = nulPlace buf size
        (emitted (formatPieces strings fmt args) (bufferOf mem buf size)).length := by
  rw [rtVsnprintf_eq, mem_written_terminate, mem_written_puts, pos_puts, last_puts]
  exact or_congr_left (or_iff_right not_mem_nil)

theorem nulPlace_le (buf size : UInt32) (n : ℕ) : nulPlace buf size n ≤ (endOf buf size).toNat := by
  unfold nulPlace
  split
  · next h => exact le_iff_toNat_le.1 h
  · exact le_rfl

/-- **`rt_vsnprintf` and `rt_snprintf` write inside of the buffer** unless this has no characters,
as long as the addresses do not go round. -/
theorem writesInside_iff (mem : ℕ → UInt8) :
    WritesInside buf size (rtVsnprintf strings mem buf size fmt args).1 ∧
        WritesInside buf size (rtSnprintf strings mem buf size fmt args).1 ↔
      0 < size ∧ (buf = 0 ∨
        buf.toNat + advance (roomOf buf size) 0 (formatPieces strings fmt args) < 2 ^ 32) := by
  have hsnprintf : rtSnprintf strings mem buf size fmt args =
      rtVsnprintf strings mem buf size fmt args := rfl
  rw [hsnprintf, and_self]
  have hend := toNat_endOf buf size
  have hle := le_endOf buf size
  have hbuf := buf.toNat_lt
  have hzero : buf = 0 ↔ buf.toNat = 0 := UInt32.toNat_inj.symm
  have hsize : 0 < size ↔ 0 < size.toNat := lt_iff_toNat_lt
  have hstart : (bufferOf mem buf size).pos.toNat = buf.toNat + 0 := rfl
  have hlength := length_emitted (formatPieces strings fmt args) hstart (endOf_eq buf size)
  have hnul := nulPlace_le buf size
    (emitted (formatPieces strings fmt args) (bufferOf mem buf size)).length
  have hplace := nulPlace_eq buf size
    (emitted (formatPieces strings fmt args) (bufferOf mem buf size)).length
  rw [hzero, hsize]
  unfold WritesInside
  simp only [mem_written_rtVsnprintf]
  constructor
  · intro h
    have hfirst := h _ (.inr rfl)
    refine ⟨by omega, ?_⟩
    by_contra hround
    -- the address 0 is written to
    have hlong : 2 ^ 32 ≤ buf.toNat +
        (emitted (formatPieces strings fmt args) (bufferOf mem buf size)).length := by omega
    rcases Nat.eq_or_lt_of_le hlong with he | hlt
    · rw [hplace (by omega)] at hfirst
      split_ifs at hfirst <;> omega
    · have hback : (buf + .ofNat (2 ^ 32 - buf.toNat)).toNat = 0 := by
        rw [toNat_add, toNat_ofNat']
        omega
      have := h 0 (.inl ⟨2 ^ 32 - buf.toNat, by omega, hback.symm, Nat.zero_le _⟩)
      omega
  · rintro ⟨hpos, hround⟩ x hx
    have hlast : x ≤ (endOf buf size).toNat := by
      rcases hx with ⟨i, -, -, hx⟩ | rfl
      · exact hx
      · exact hnul
    refine ⟨?_, by split_ifs at hend <;> omega⟩
    rcases hround with hround | hround
    · omega
    · have hshort := hlength (.inl hround)
      rcases hx with ⟨i, hi, rfl, -⟩ | rfl
      · rw [toNat_add, toNat_ofNat']
        omega
      · rw [hplace (by omega), if_pos (by omega)]
        omega

end

/-- Text that is written to a buffer of no characters. -/
theorem not_writesInside_empty :
    ¬ WritesInside 0x20000000 0
      (@rtSnprintf ⟨false⟩ (fun _ => []) (fun _ => 0) 0x20000000 0
        ("abc".toList.map chr) []).1 := by
  intro h
  exact absurd (h 0x20000000 (by decide)) (by decide)

end RtThread
