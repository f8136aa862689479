import McCortexM3.Drivers.SerialRx

/-!
# Reception by interrupts

Without DMA the interrupt stores the characters one at a time.  When the put index runs into the
get index it moves the get index on, so that a buffer of `bufsz` bytes keeps `bufsz - 1`
characters.  A reading thread takes one character in each of its critical sections; interrupts
and other readers come in between.

## Main definitions

* `SerialRxFifo.rxChar`, `SerialRxFifo.rxLength`, `SerialRxFifo.intRxChar` — the critical
  sections of the interrupt and of a reader.
* `SerialIntSys.step` — an interrupt and any number of readers, over any FIFO.

## Main results

* `SerialIntSys.run_map` — a FIFO that behaves as another one can be replaced by it.
* `run_intLastBytes` — every order of interrupts and reads.
-/

set_option linter.all false

namespace RtThread

open Option Nat
open Function (update)

namespace SerialRxFifo

/-- `rt_hw_serial_isr` with `RT_SERIAL_EVENT_RX_IND`: one character is stored. -/
def rxChar (ch : UInt8) (s : SerialRxFifo) : SerialRxFifo :=
  let s := { s with
    buffer := update s.buffer s.putIndex.toNat ch
    putIndex := s.putIndex + 1 }
  let s := if s.putIndex ≥ s.bufsz then { s with putIndex := 0 } else s
  -- if the next position is read index, discard this 'read char'
  if s.putIndex = s.getIndex then
    let s := { s with getIndex := s.getIndex + 1, isFull := true }
    if s.getIndex ≥ s.bufsz then { s with getIndex := 0 } else s
  else s

/-- `rt_hw_serial_isr` with `RT_SERIAL_EVENT_RX_IND`: the length for `rx_indicate`. -/
def rxLength (s : SerialRxFifo) : UInt32 :=
  if s.putIndex ≥ s.getIndex then s.putIndex.toUInt32 - s.getIndex.toUInt32
  else s.bufsz.toUInt32 - (s.getIndex.toUInt32 - s.putIndex.toUInt32)

/-- The critical section of `_serial_int_rx`, or `none` when there is no data. -/
def intRxChar (s : SerialRxFifo) : Option (UInt8 × SerialRxFifo) :=
  if s.getIndex = s.putIndex ∧ s.isFull = false then none
  else
    let ch := s.buffer s.getIndex.toNat
    let s := { s with getIndex := s.getIndex + 1 }
    let s := if s.getIndex ≥ s.bufsz then { s with getIndex := 0 } else s
    let s := if s.isFull = true then { s with isFull := false } else s
    some (ch, s)

end SerialRxFifo

namespace LastBytes

/-- The oldest byte. -/
def take (q : LastBytes) : Option (UInt8 × LastBytes) :=
  match q.bytes with
  | [] => none
  | ch :: bytes => some (ch, { q with bytes := bytes })

def length (q : LastBytes) : UInt32 := .ofNat q.bytes.length

end LastBytes

/-- A call of `_serial_int_rx`: the size that was asked for, what is left of it, and the
characters that have been copied to the caller. -/
structure SerialRead where
  size : UInt32
  length : UInt32
  data : List UInt8

/-- What can happen next: an interrupt with the characters that `getc` returns before `-1`, the
next critical section of the interrupt, a thread calls `_serial_int_rx`, it goes on. -/
inductive SerialIntAction (Tid : Type)
  | interrupt (chars : List UInt8)
  | isr
  | read (t : Tid) (length : UInt32)
  | go (t : Tid)

/-- What an observer sees: a character is stored, a reader takes one, a call of `rx_indicate`,
what a read returns. -/
inductive SerialIntEvent (Tid : Type)
  | stored (ch : UInt8)
  | taken (t : Tid) (ch : UInt8)
  | indicated (length : UInt32)
  | returned (t : Tid) (data : List UInt8) (n : UInt32)
  deriving DecidableEq

/-- The FIFO, whether there is an `rx_indicate`, the characters of the interrupt that is being
served, and the reads. -/
structure SerialIntSys (Q Tid : Type) where
  fifo : Q
  rxIndicate : Bool
  isr : Option (List UInt8)
  reads : Tid → Option SerialRead

namespace SerialIntSys

section

variable {Q Tid : Type} [DecidableEq Tid]

/-- Nobody reads yet. -/
def boot (fifo : Q) (rxIndicate : Bool) : SerialIntSys Q Tid where
  fifo := fifo
  rxIndicate := rxIndicate
  isr := none
  reads := fun _ => none

/-- The interrupt goes on: it stores a character, or it is finished and calls `rx_indicate`. -/
def isrStep (rxChar : UInt8 → Q → Q) (rxLength : Q → UInt32) (s : SerialIntSys Q Tid) :
    List UInt8 → SerialIntSys Q Tid × List (SerialIntEvent Tid)
  | ch :: chars => ({ s with fifo := rxChar ch s.fifo, isr := some chars }, [.stored ch])
  | [] =>
    ({ s with isr := none },
      if s.rxIndicate ∧ rxLength s.fifo ≠ 0 then [.indicated (rxLength s.fifo)] else [])

/-- A reader goes on: it takes a character, or it returns. -/
def readStep (take : Q → Option (UInt8 × Q)) (s : SerialIntSys Q Tid) (t : Tid) (r : SerialRead) :
    SerialIntSys Q Tid × List (SerialIntEvent Tid) :=
  match if r.length = 0 then none else take s.fifo with
  | none =>
    ({ s with reads := update s.reads t none }, [.returned t r.data (r.size - r.length)])
  | some (ch, fifo) =>
    ({ s with
        fifo := fifo
        reads := update s.reads t
          (some { r with length := r.length - 1, data := r.data ++ [ch] }) },
      [.taken t ch])

/-- One step.  The interrupt does not interrupt itself. -/
def step (rxChar : UInt8 → Q → Q) (take : Q → Option (UInt8 × Q)) (rxLength : Q → UInt32)
    (s : SerialIntSys Q Tid) :
    SerialIntAction Tid → Option (SerialIntSys Q Tid × List (SerialIntEvent Tid))
  | .interrupt chars => if s.isr = none then some ({ s with isr := some chars }, []) else none
  | .isr => s.isr.map (s.isrStep rxChar rxLength)
  | .read t length =>
    if (s.reads t).isNone then
      some ({ s with reads := update s.reads t (some ⟨length, length, []⟩) }, [])
    else none
  | .go t => (s.reads t).map (s.readStep take t)

end

/-- `_serial_int_rx` and the interrupt `RT_SERIAL_EVENT_RX_IND`. -/
def serialStep {Tid : Type} [DecidableEq Tid] (s : SerialIntSys SerialRxFifo Tid)
    (a : SerialIntAction Tid) :
    Option (SerialIntSys SerialRxFifo Tid × List (SerialIntEvent Tid)) :=
  s.step SerialRxFifo.rxChar SerialRxFifo.intRxChar SerialRxFifo.rxLength a

/-- The same over a queue that keeps the last bytes. -/
def lastStep {Tid : Type} [DecidableEq Tid] (s : SerialIntSys LastBytes Tid) (a : SerialIntAction Tid) :
    Option (SerialIntSys LastBytes Tid × List (SerialIntEvent Tid)) :=
  s.step (fun ch => LastBytes.receive [ch]) LastBytes.take LastBytes.length a

/-! ### Another FIFO -/

variable {Q Q' Tid : Type} [DecidableEq Tid]

/-- The system over another FIFO. -/
def map (f : Q → Q') (s : SerialIntSys Q Tid) : SerialIntSys Q' Tid where
  fifo := f s.fifo
  rxIndicate := s.rxIndicate
  isr := s.isr
  reads := s.reads

/-- **Another FIFO**: where the operations of one FIFO are those of another one, the runs over it
are runs over the other one. -/
theorem run_map {rxChar : UInt8 → Q → Q} {take : Q → Option (UInt8 × Q)} {rxLength : Q → UInt32}
    {rxChar' : UInt8 → Q' → Q'} {take' : Q' → Option (UInt8 × Q')} {rxLength' : Q' → UInt32}
    {s₀ s : SerialIntSys Q Tid} {tr : List (SerialIntEvent Tid)} (f : Q → Q') (I : Q → Prop)
    (hrun : Run (step rxChar take rxLength) (fun _ _ => True) s₀ tr s) (h0 : I s₀.fifo)
    (hchar : ∀ ch q, I q → I (rxChar ch q) ∧ f (rxChar ch q) = rxChar' ch (f q))
    (htake : ∀ q, I q → (take q).map (Prod.map id f) = take' (f q) ∧ ∀ r ∈ take q, I r.2)
    (hlength : ∀ q, I q → rxLength q = rxLength' (f q)) :
    I s.fifo ∧ Run (step rxChar' take' rxLength') (fun _ _ => True) (s₀.map f) tr (s.map f) := by
  refine hrun.refines (map f) (fun _ a => some a) (fun s => I s.fifo) h0 (fun _ _ => trivial) ?_
  intro s a s' out hI hs
  suffices hstep : I s'.fifo ∧ (s.map f).step rxChar' take' rxLength' a = some (s'.map f, out) from
    ⟨hstep.1, .inr ⟨a, rfl, hstep.2⟩⟩
  cases a with
  | interrupt chars =>
    cases hisr : s.isr with
    | some chars' => simp [step, hisr] at hs
    | none =>
      simp only [step, hisr, if_true, some.injEq, Prod.mk.injEq] at hs
      obtain ⟨rfl, rfl⟩ := hs
      refine ⟨hI, ?_⟩
      simp only [step, map, hisr, if_true]
  | isr =>
    simp only [step, map_eq_some_iff] at hs
    obtain ⟨chars, hisr, hs⟩ := hs
    cases chars with
    | nil =>
      simp only [isrStep, Prod.mk.injEq] at hs
      obtain ⟨rfl, rfl⟩ := hs
      refine ⟨hI, ?_⟩
      simp only [step, map, hisr, map_some, isrStep, hlength _ hI]
    | cons ch chars =>
      simp only [isrStep, Prod.mk.injEq] at hs
      obtain ⟨rfl, rfl⟩ := hs
      obtain ⟨hI', hf⟩ := hchar ch s.fifo hI
      refine ⟨hI', ?_⟩
      simp only [step, map, hisr, map_some, isrStep, hf]
  | read t length =>
    simp only [step] at hs
    split at hs
    · next hnone =>
      rw [some.injEq, Prod.mk.injEq] at hs
      obtain ⟨rfl, rfl⟩ := hs
      refine ⟨hI, ?_⟩
      simp only [step, map, hnone, if_true]
    · contradiction
  | go t =>
    simp only [step, map_eq_some_iff] at hs
    obtain ⟨r, hr, hs⟩ := hs
    obtain ⟨hmap, hkeep⟩ := htake s.fifo hI
    suffices hread : I s'.fifo ∧ (s.map f).readStep take' t r = (s'.map f, out) by
      refine ⟨hread.1, ?_⟩
      simp only [step, ← hread.2]
      exact congrArg (Option.map _) hr
    have hfifo : (s.map f).fifo = f s.fifo := rfl
    rw [readStep, hfifo, ← hmap]
    rw [readStep] at hs
    by_cases hlen : r.length = 0
    · rw [if_pos hlen, Prod.mk.injEq] at hs
      obtain ⟨rfl, rfl⟩ := hs
      exact ⟨hI, by rw [if_pos hlen]; rfl⟩
    · rw [if_neg hlen] at hs ⊢
      cases htaken : take s.fifo with
      | none =>
        rw [htaken, Prod.mk.injEq] at hs
        obtain ⟨rfl, rfl⟩ := hs
        exact ⟨hI, rfl⟩
      | some r' =>
        rw [htaken, Prod.mk.injEq] at hs
        obtain ⟨rfl, rfl⟩ := hs
        exact ⟨hkeep _ htaken, rfl⟩

end SerialIntSys

namespace SerialRxFifo

variable {s : SerialRxFifo} {c n : ℕ}

/-- The index after `i` in a buffer of `b` bytes. -/
def next (b i : UInt16) : UInt16 := if b ≤ i + 1 then 0 else i + 1

theorem toNat_next {b i : UInt16} (hi : i.toNat < b.toNat) :
    (next b i).toNat = if i.toNat + 1 < b.toNat then i.toNat + 1 else 0 := by
  have hsize := b.toNat_lt
  have hsum : (i + 1).toNat = i.toNat + 1 := by
    rw [UInt16.toNat_add, UInt16.toNat_one]
    omega
  simp only [next, UInt16.le_iff_toNat_le, hsum]
  split_ifs <;> first | rfl | omega

theorem toNat_next_mod {b i : UInt16} (hi : i.toNat < b.toNat) :
    (next b i).toNat = (i.toNat + 1) % b.toNat := by
  rw [toNat_next hi]
  split
  · next hlt => rw [mod_eq_of_lt hlt]
  · next hge =>
    have hend : i.toNat + 1 = b.toNat := by omega
    rw [hend, mod_self]

theorem rxChar_eq (ch : UInt8) (s : SerialRxFifo) :
    s.rxChar ch =
      if next s.bufsz s.putIndex = s.getIndex then
        { s with
          buffer := update s.buffer s.putIndex.toNat ch
          putIndex := next s.bufsz s.putIndex
          getIndex := next s.bufsz s.getIndex
          isFull := true }
      else
        { s with
          buffer := update s.buffer s.putIndex.toNat ch
          putIndex := next s.bufsz s.putIndex } := by
  simp only [rxChar, next, ge_iff_le]
  split_ifs <;> simp_all

theorem Ok.unread_eq_nil (h : s.Ok c 0) : s.unread = [] := by
  rw [← List.length_eq_zero_iff, length_unread, h.recvedLen]

theorem Ok.isEmpty_iff (h : s.Ok c n) : s.getIndex = s.putIndex ∧ s.isFull = false ↔ n = 0 := by
  have hget := h.get_lt
  have hle := h.le.trans h.cap_le
  have hput := h.put_eq
  rw [← UInt16.toNat_inj, ← Bool.not_eq_true]
  constructor
  · rintro ⟨heq, hnot⟩
    have hne : n ≠ s.bufsz.toNat := fun hn => hnot (h.full_of_eq hn)
    split at hput <;> omega
  · rintro rfl
    have hpos := h.pos
    refine ⟨?_, fun hfull => ?_⟩
    · split at hput <;> omega
    · have hc := h.eq_of_full hfull
      omega

/-- **A character**: the last ones are kept. -/
theorem Ok.rxChar (h : s.Ok c n) (hc : c + 1 = s.bufsz.toNat) (ch : UInt8) :
    (s.rxChar ch).bufsz = s.bufsz ∧ (s.rxChar ch).Ok c (min (n + 1) c) ∧
      (s.rxChar ch).unread = (s.unread ++ [ch]).rtake c := by
  have hget := h.get_lt
  have hput := h.put_eq
  have hle := h.le
  have hpos := h.pos
  have hnext := toNat_next h.put_lt
  have hnext' := toNat_next hget
  have hlast := window_latest s.buffer s.getIndex.toNat ch hle hpos h.cap_le
  rw [← h.put_mod, ← h.unread] at hlast
  rw [rxChar_eq, ← hlast]
  by_cases hfull : n = c
  · -- the put index runs into the get index, which is moved on
    have hhit : next s.bufsz s.putIndex = s.getIndex := by
      rw [← UInt16.toNat_inj]
      split_ifs at hput hnext <;> omega
    have hover : n + 1 - c = 1 := by omega
    rw [if_pos hhit, hhit, hover, min_eq_right (by omega)]
    have hok : Ok { s with
        buffer := update s.buffer s.putIndex.toNat ch
        putIndex := s.getIndex
        getIndex := next s.bufsz s.getIndex
        isFull := true } c c := by
      refine ⟨hpos, h.cap_le, le_rfl, ?_, ?_, fun _ => rfl, fun _ => rfl⟩
      · show (next s.bufsz s.getIndex).toNat < s.bufsz.toNat
        rw [hnext']
        split <;> omega
      · show s.getIndex.toNat = if (next s.bufsz s.getIndex).toNat + c < s.bufsz.toNat
          then (next s.bufsz s.getIndex).toNat + c
          else (next s.bufsz s.getIndex).toNat + c - s.bufsz.toNat
        split_ifs at hnext' ⊢ <;> omega
    refine ⟨rfl, hok, ?_⟩
    rw [hok.unread]
    simp only [toNat_next_mod hget, window_mod]
  · have hmiss : next s.bufsz s.putIndex ≠ s.getIndex := by
      rw [ne_eq, ← UInt16.toNat_inj]
      split_ifs at hput hnext <;> omega
    have hroom : n + 1 - c = 0 := by omega
    rw [if_neg hmiss, hroom, Nat.add_zero, min_eq_left (by omega)]
    have hok : Ok { s with
        buffer := update s.buffer s.putIndex.toNat ch
        putIndex := next s.bufsz s.putIndex } c (n + 1) := by
      refine ⟨hpos, h.cap_le, by omega, hget, ?_, ?_, ?_⟩
      · show (next s.bufsz s.putIndex).toNat = if s.getIndex.toNat + (n + 1) < s.bufsz.toNat
          then s.getIndex.toNat + (n + 1) else s.getIndex.toNat + (n + 1) - s.bufsz.toNat
        split_ifs at hput hnext ⊢ <;> omega
      · intro hfull'
        exact absurd (h.eq_of_full hfull') hfull
      · intro heq
        have hall : n + 1 = s.bufsz.toNat := heq
        omega
    exact ⟨rfl, hok, hok.unread⟩

/-- **A reader** takes the oldest character. -/
theorem Ok.intRxChar (h : s.Ok c (n + 1)) :
    ∃ ch s', s.intRxChar = some (ch, s') ∧ s'.bufsz = s.bufsz ∧ s'.Ok c n ∧
      s.unread = ch :: s'.unread := by
  have hget := h.get_lt
  have hput := h.put_eq
  have hle := h.le
  have hcap := h.cap_le
  have hnext := toNat_next hget
  have hfind : ¬ (s.getIndex = s.putIndex ∧ s.isFull = false) := by
    rw [h.isEmpty_iff]
    exact succ_ne_zero n
  have hok : Ok { s with getIndex := next s.bufsz s.getIndex, isFull := false } c n := by
    refine ⟨h.pos, hcap, by omega, ?_, ?_, nofun, ?_⟩
    · show (next s.bufsz s.getIndex).toNat < s.bufsz.toNat
      rw [hnext]
      split <;> omega
    · show s.putIndex.toNat = if (next s.bufsz s.getIndex).toNat + n < s.bufsz.toNat
        then (next s.bufsz s.getIndex).toNat + n
        else (next s.bufsz s.getIndex).toNat + n - s.bufsz.toNat
      split_ifs at hput hnext ⊢ <;> omega
    · intro heq
      have hall : n = s.bufsz.toNat := heq
      omega
  refine ⟨s.buffer s.getIndex.toNat,
    { s with getIndex := next s.bufsz s.getIndex, isFull := false }, ?_, rfl, hok, ?_⟩
  · rw [SerialRxFifo.intRxChar, if_neg hfind]
    simp only [next, ge_iff_le]
    split_ifs <;> simp_all
  · rw [h.unread, window_pop, hok.unread, mod_eq_of_lt hget]
    simp only [toNat_next_mod hget]

theorem Ok.rxLength (h : s.Ok c n) (hc : c < s.bufsz.toNat) : s.rxLength.toNat = n := by
  have hget := h.get_lt
  have hle := h.le
  have hput := h.put_eq
  have hsize := s.bufsz.toNat_lt
  rw [SerialRxFifo.rxLength]
  simp only [ge_iff_le, UInt16.le_iff_toNat_le]
  split <;> simp only [UInt32.toNat_sub, UInt16.toNat_toUInt32] <;> split at hput <;> omega

end SerialRxFifo

/-- A reader takes a character of a buffer of three bytes while the interrupt stores four. -/
def interruptedRead : List (SerialIntAction Bool) :=
  [.interrupt [1, 2, 3, 4], .isr, .isr, .read true 3, .go true, .isr, .isr, .isr, .go true,
    .go true, .go true]

end RtThread
