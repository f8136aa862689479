import McCortexM3.Zmodem.Packets

/-!
# Round trips of ZMODEM packets

A packet with a checksum of 16 bits is received as it has been sent.  One with a checksum of 32 bits
never is: the receiver takes the residue of a correct packet for an error.  And the receiver writes
one byte too many into its buffer when the bytes are more than what there is place for.

## Main definitions

* `RoundTrip` — what has been sent is received.
* `Bounded` — the receiver writes into its buffer only.

## Main results

* `roundTrip_crc16` — with 16 bits, what has been sent is received.
* `error_crc32` — with 32 bits, what has been sent is received with an error.
* `bounded_crc16_iff` — when the receiver writes into its buffer only.
* `roundTrip_bounded_iff` — when both hold.
-/

set_option linter.all false

namespace RtThread

open List Nat
open TableCrc (left lowBytes right)

namespace Zmodem

variable {γ : Type} {z : ZReceiver γ} {s s' : ZRec γ} {l l' : List UInt8} {b e : UInt8}

/-! ### The next byte -/

theorem zrecLoop_full (hbelow : z.below s.buf.length = false) :
    zrecLoop z l s = (s, some (.error, l)) := by
  rw [zrecLoop, hbelow]
  exact if_neg Bool.false_ne_true

theorem zrecLoop_got (hbelow : z.below s.buf.length = true)
    (hread : zreadByte l = some (.got e, l')) :
    zrecLoop z l s = zrecLoop z l' { s with crc := z.upd e s.crc, flag := some e } := by
  rw [zrecLoop, if_pos hbelow]
  split
  all_goals
    rename_i heq
    rw [hread] at heq
    cases heq
  rfl

theorem zrecLoop_data (hbelow : z.below s.buf.length = true) (hflag : s.flag = none)
    (hread : zreadByte l = some (.byte b, l')) :
    zrecLoop z l s =
      (z.store b { s with crc := z.upd b s.crc }).elim
        ({ s with crc := z.upd b s.crc }, some (.error, l')) (zrecLoop z l') := by
  rw [zrecLoop, if_pos hbelow]
  split
  all_goals
    rename_i heq
    rw [hread] at heq
    cases heq
  simp only [hflag]
  cases z.store b _ <;> rfl

theorem zrecLoop_crc (hbelow : z.below s.buf.length = true) (hflag : s.flag = some e)
    (hread : zreadByte l = some (.byte b, l')) :
    zrecLoop z l s =
      if s.crcCnt + 1 < z.crcLen then
        zrecLoop z l' { s with crc := z.upd b s.crc, crcCnt := s.crcCnt + 1 }
      else ({ s with crc := z.upd b s.crc, crcCnt := s.crcCnt + 1 },
        some (if z.bad (z.upd b s.crc) then .error else .got e, l')) := by
  rw [zrecLoop, if_pos hbelow]
  split
  all_goals
    rename_i heq
    rw [hread] at heq
    cases heq
  simp only [hflag]
  split
  · rfl
  · split <;> rfl

/-! ### What is sent -/

/-- Bytes that are sent one after another. -/
def zsendAll (bs : List UInt8) : List UInt8 := bs.flatMap fun b => zsendZdleChar b.toUInt16

/-- Data, a frame end and a checksum. -/
def packet (bs : List UInt8) (e : UInt8) (check : List UInt8) : List UInt8 :=
  zsendAll bs ++ zdle :: e :: zsendAll check

theorem zsendAll_cons (b : UInt8) (bs : List UInt8) :
    zsendAll (b :: bs) = zsendZdleChar b.toUInt16 ++ zsendAll bs := flatMap_cons

theorem zsendZdleChar_low (ch : UInt16) : zsendZdleChar ch = zsendZdleChar ch.toUInt8.toUInt16 := by
  rw [zsendZdleChar, zsendZdleChar, UInt8.toUInt8_toUInt16]

theorem foldl_char (upd : UInt8 → UInt32 → UInt32) (bs : List UInt8) (s : ZSend) :
    bs.foldl (ZSend.char upd) s =
      ⟨s.out ++ zsendAll bs, bs.foldl (fun crc b => upd b crc) s.crc⟩ := by
  induction bs generalizing s with
  | nil => simp [zsendAll]
  | cons b bs ih =>
    rw [foldl_cons, ih, zsendAll_cons, ZSend.char, foldl_cons, append_assoc]

theorem zsendCrc_eq (n : ℕ) (crc : UInt32) : zsendCrc n crc = zsendAll (lowBytes n crc) := by
  induction n generalizing crc with
  | zero => rfl
  | succ n ih =>
    rw [zsendCrc, ih, lowBytes, zsendAll_cons, zsendZdleChar_low, UInt32.toUInt8_toUInt16]

theorem exists_rleLoop (buf : List UInt8) (i : ℕ) (tmp : UInt8) (s : ZSend) :
    ∃ bs : List UInt8, rleLoop buf i tmp s = bs.foldl (ZSend.char updcrc32) s := by
  induction buf generalizing i tmp s with
  | nil => exact ⟨[], rfl⟩
  | cons c buf ih =>
    rw [rleLoop]
    split
    · exact ih (i + 1) tmp s
    split
    · -- a single byte, which may need an escape
      dsimp only
      split
      · obtain ⟨bs, hbs⟩ := ih i c ((s.char updcrc32 tmp).char updcrc32 0x40)
        exact ⟨tmp :: 0x40 :: bs, hbs⟩
      · obtain ⟨bs, hbs⟩ := ih i c (s.char updcrc32 tmp)
        exact ⟨tmp :: bs, hbs⟩
    split
    · split
      · obtain ⟨bs, hbs⟩ := ih 0 c ((s.char updcrc32 tmp).char updcrc32 tmp)
        exact ⟨tmp :: tmp :: bs, hbs⟩
      · exact ih i tmp s
    · dsimp only
      split
      · obtain ⟨bs, hbs⟩ := ih 0 c
          ((s.char updcrc32 zresc).char updcrc32 (UInt8.ofNat (i + 0x1e)))
        exact ⟨zresc :: UInt8.ofNat (i + 0x1e) :: bs, hbs⟩
      · obtain ⟨bs, hbs⟩ := ih 0 c
          (((s.char updcrc32 zresc).char updcrc32 (UInt8.ofNat (i + 0x41))).char updcrc32 tmp)
        exact ⟨zresc :: UInt8.ofNat (i + 0x41) :: tmp :: bs, hbs⟩

/-- The checksum of 32 bits of some bytes, with the frame end. -/
def crc32 (bs : List UInt8) (e : UInt8) : UInt32 :=
  updcrc32 e (bs.foldl (fun crc b => updcrc32 b crc) 0xffffffff)

theorem zsendBinData32_eq (bs : List UInt8) (e : UInt8) :
    zsendBinData32 bs e = packet bs e (lowBytes 4 (~~~crc32 bs e)) := by
  rw [zsendBinData32, foldl_char]
  simp [ZSend.frameEnd, packet, zsendCrc_eq, crc32]

theorem exists_zsendBinData32r (buf : List UInt8) (past e : UInt8) :
    ∃ bs : List UInt8, zsendBinData32r buf past e = packet bs e (lowBytes 4 (~~~crc32 bs e)) := by
  rw [zsendBinData32r]
  split
  · next heq => simp at heq
  · next tmp rest _ =>
    obtain ⟨bs, hbs⟩ := exists_rleLoop rest 0 tmp ⟨[], 0xffffffff⟩
    refine ⟨bs, ?_⟩
    rw [hbs]
    exact zsendBinData32_eq bs e

/-- The receiver's checksum of 16 bits. -/
def crc16 (bs : List UInt8) (c : UInt16) : UInt16 :=
  bs.foldl (fun crc b => left entry16 b crc) c

theorem crc16_append (as bs : List UInt8) (c : UInt16) :
    crc16 (as ++ bs) c = crc16 bs (crc16 as c) := foldl_append

theorem upd_receiver16 (len : UInt16) (b : UInt8) (crc : UInt16) :
    (receiver16 len).upd b crc = left entry16 b crc := by
  have htwice : crc.toUInt32.toUInt16 = crc := UInt16.toUInt16_toUInt32 crc
  show (updcrc16 b.toUInt32 crc.toUInt32).toUInt16 = _
  rw [toUInt16_updcrc16, htwice]

theorem toUInt16_foldl (bs : List UInt8) (crc : UInt32) :
    (bs.foldl (fun crc b => upd16 b crc) crc).toUInt16 = crc16 bs crc.toUInt16 := by
  induction bs generalizing crc with
  | nil => rfl
  | cons b bs ih =>
    rw [foldl_cons, ih, upd16, toUInt16_updcrc16, crc16, crc16, foldl_cons]

/-- What is sent when `TxCRC` is 0: its checksum is such that nothing is left. -/
theorem exists_zsendBinData16 (bs : List UInt8) (e : UInt8) :
    ∃ hi lo, zsendBinData16 bs e = packet bs e [hi, lo] ∧ crc16 (bs ++ e :: [hi, lo]) 0 = 0 := by
  obtain ⟨c, hc⟩ : ∃ c, c = upd16 e (bs.foldl (fun crc b => upd16 b crc) 0) := ⟨_, rfl⟩
  obtain ⟨w, hw⟩ : ∃ w, w = updcrc16 0 (updcrc16 0 c) := ⟨_, rfl⟩
  have hdata : crc16 (bs ++ [e]) 0 = c.toUInt16 := by
    rw [hc, upd16, toUInt16_updcrc16, toUInt16_foldl, crc16_append]
    rfl
  have hlow : w.toUInt16 = left entry16 0 (left entry16 0 c.toUInt16) := by
    rw [hw]
    exact (toUInt16_updcrc16 0 _).trans (congrArg _ (toUInt16_updcrc16 0 c))
  have hhigh : (w >>> 8).toUInt16.toUInt8 = (w.toUInt16 >>> 8).toUInt8 := by
    rw [← UInt8.toNat_inj]
    show w.toNat >>> 8 % 2 ^ 16 % 2 ^ 8 = (w.toNat % 2 ^ 16) >>> 8 % 2 ^ 8
    rw [shiftRight_eq_div_pow, shiftRight_eq_div_pow]
    omega
  refine ⟨(w >>> 8).toUInt16.toUInt8, w.toUInt16.toUInt8, ?_, ?_⟩
  · rw [zsendBinData16, foldl_char, packet, zsendAll_cons, zsendAll_cons, ← zsendZdleChar_low,
      ← zsendZdleChar_low]
    simp [ZSend.frameEnd, zsendAll, hw, hc]
  · have happend : bs ++ e :: [(w >>> 8).toUInt16.toUInt8, w.toUInt16.toUInt8] =
        (bs ++ [e]) ++ [(w >>> 8).toUInt16.toUInt8, w.toUInt16.toUInt8] := by simp
    rw [happend, crc16_append, hdata, hhigh, hlow]
    exact TableCrc.left_register c.toUInt16

/-! ### What is received -/

theorem zrecLoop_check (check : List UInt8) (hbelow : z.below s.buf.length = true)
    (hflag : s.flag = some e) (hne : check ≠ []) (hlen : s.crcCnt + check.length = z.crcLen) :
    zrecLoop z (zsendAll check ++ l) s =
      ({ s with crc := check.foldl (fun crc b => z.upd b crc) s.crc, crcCnt := z.crcLen },
        some (if z.bad (check.foldl (fun crc b => z.upd b crc) s.crc) then .error else .got e,
          l)) := by
  induction check generalizing s with
  | nil => exact absurd rfl hne
  | cons b check ih =>
    have hread := zreadByte_zsendZdleChar b.toUInt16 (zsendAll check ++ l)
    rw [UInt8.toUInt8_toUInt16] at hread
    rw [length_cons] at hlen
    rw [zsendAll_cons, append_assoc, zrecLoop_crc hbelow hflag hread, foldl_cons]
    by_cases hnil : check = []
    · subst hnil
      rw [length_nil] at hlen
      rw [if_neg (by omega), ← hlen]
      rfl
    · have hpos := length_pos_iff.2 hnil
      rw [if_pos (by omega)]
      exact ih hbelow hflag hnil (by dsimp only; omega)

theorem zrecLoop_plain (bs : List UInt8) (hflag : s.flag = none)
    (hbelow : ∀ n ≤ s.buf.length + bs.length, z.below n = true)
    (hstore : ∀ b s, z.store b s = some (s.put b)) :
    zrecLoop z (zsendAll bs ++ l) s =
      zrecLoop z l { s with
        crc := bs.foldl (fun crc b => z.upd b crc) s.crc
        buf := s.buf ++ bs
        rxcount := s.rxcount + UInt16.ofNat bs.length } := by
  induction bs generalizing s with
  | nil => simp [zsendAll]
  | cons b bs ih =>
    have hread := zreadByte_zsendZdleChar b.toUInt16 (zsendAll bs ++ l)
    rw [UInt8.toUInt8_toUInt16] at hread
    rw [length_cons] at hbelow
    rw [zsendAll_cons, append_assoc, zrecLoop_data (hbelow _ (by omega)) hflag hread, hstore,
      Option.elim_some]
    refine (ih (s := { s with crc := z.upd b s.crc }.put b) hflag fun n hn => hbelow n ?_).trans ?_
    · simp only [ZRec.put, length_append, length_singleton] at hn
      omega
    · simp only [ZRec.put, foldl_cons, append_assoc, singleton_append,
        length_cons]
      have hcount : s.rxcount + 1 + UInt16.ofNat bs.length =
          s.rxcount + UInt16.ofNat (bs.length + 1) := by
        rw [UInt16.ofNat_add, UInt16.add_assoc, UInt16.add_comm 1]
        rfl
      rw [hcount]

theorem zrecLoop_error (bs check : List UInt8) (he : e ∈ frameEnds) (hflag : s.flag = none)
    (hstore : ∀ b s s', z.store b s = some s' →
      s'.crc = s.crc ∧ s'.crcCnt = s.crcCnt ∧ s'.flag = s.flag)
    (hne : check ≠ []) (hlen : s.crcCnt + check.length = z.crcLen)
    (hbad : z.bad ((bs ++ e :: check).foldl (fun crc b => z.upd b crc) s.crc) = true) :
    ∃ s' l', zrecLoop z (packet bs e check ++ l) s = (s', some (.error, l')) := by
  induction bs generalizing s with
  | nil =>
    cases hbelow : z.below s.buf.length with
    | false => exact ⟨_, _, zrecLoop_full hbelow⟩
    | true =>
      have hread := zreadByte_frameEnd he (zsendAll check ++ l)
      have hcheck := zrecLoop_check (s := { s with crc := z.upd e s.crc, flag := some e }) (l := l)
        check hbelow rfl hne hlen
      rw [nil_append, foldl_cons] at hbad
      rw [if_pos hbad] at hcheck
      exact ⟨_, _, (zrecLoop_got hbelow hread).trans hcheck⟩
  | cons b bs ih =>
    cases hbelow : z.below s.buf.length with
    | false => exact ⟨_, _, zrecLoop_full hbelow⟩
    | true =>
      have hread := zreadByte_zsendZdleChar b.toUInt16 (packet bs e check ++ l)
      rw [UInt8.toUInt8_toUInt16] at hread
      have hcons : packet (b :: bs) e check ++ l =
          zsendZdleChar b.toUInt16 ++ (packet bs e check ++ l) := by
        rw [packet, zsendAll_cons]
        simp [packet]
      rw [hcons, zrecLoop_data hbelow hflag hread]
      cases hs : z.store b { s with crc := z.upd b s.crc } with
      | none => exact ⟨_, _, rfl⟩
      | some s₁ =>
        obtain ⟨hcrc, hcnt, hflag₁⟩ := hstore _ _ _ hs
        refine ih (hflag₁.trans hflag) (by rw [hcnt]; exact hlen) ?_
        rw [hcrc]
        exact hbad

theorem zrecLoop_ends (hbyte : ∀ b l', zreadByte l ≠ some (.byte b, l'))
    (hgot : ∀ e l', zreadByte l ≠ some (.got e, l')) : (zrecLoop z l s).1 = s := by
  rw [zrecLoop]
  split
  · split
    · rfl
    · next e l' heq => exact absurd heq (hgot e l')
    · rfl
    · rfl
    · next b l' heq => exact absurd heq (hbyte b l')
  · rfl

theorem dataCount_byte (hread : zreadByte l = some (.byte b, l')) :
    dataCount l = dataCount l' + 1 := by
  rw [dataCount]
  split
  · next heq =>
    rw [hread] at heq
    cases heq
    rfl
  · next hne => exact absurd hread (hne b l')

theorem dataCount_ends (hbyte : ∀ b l', zreadByte l ≠ some (.byte b, l')) : dataCount l = 0 := by
  rw [dataCount]
  split
  · next b l' heq => exact absurd heq (hbyte b l')
  · rfl

theorem dataCount_nil : dataCount [] = 0 := by
  refine dataCount_ends fun b l' h => ?_
  cases h

/-- The bytes that `zrec_data16` writes: those that are received before something else is, but no
more than one behind the buffer. -/
theorem length_zrecLoop16 (len : UInt16) {s : ZRec UInt16} (hle : s.buf.length ≤ len.toNat + 1) :
    (zrecLoop (receiver16 len) l s).1.buf.length =
      if s.flag = none then min (s.buf.length + dataCount l) (len.toNat + 1)
      else s.buf.length := by
  induction hn : l.length using Nat.strongRecOn generalizing l s with
  | ind n ih =>
    subst hn
    cases hbelow : (receiver16 len).below s.buf.length with
    | false =>
      have hfull : ¬ s.buf.length ≤ len.toNat := of_decide_eq_false hbelow
      rw [zrecLoop_full hbelow]
      split <;> dsimp only <;> omega
    | true =>
      have hroom : s.buf.length ≤ len.toNat := of_decide_eq_true hbelow
      by_cases hbyte : ∃ b l', zreadByte l = some (.byte b, l')
      · obtain ⟨b, l', hread⟩ := hbyte
        have hlt := zreadByte_length hread
        rw [dataCount_byte hread]
        cases hflag : s.flag with
        | none =>
          -- one more byte is written
          rw [zrecLoop_data hbelow hflag hread, if_pos rfl]
          refine (ih _ hlt
            (s := { s with crc := (receiver16 len).upd b s.crc }.put b) ?_ rfl).trans ?_
          · simp only [ZRec.put, length_append, length_singleton]
            omega
          · simp only [ZRec.put, length_append, length_singleton, hflag, if_true]
            omega
        | some e =>
          have hne : ¬ some e = (none : Option UInt8) := nofun
          rw [zrecLoop_crc hbelow hflag hread, if_neg hne]
          split
          · refine (ih _ hlt (s := { s with
              crc := (receiver16 len).upd b s.crc, crcCnt := s.crcCnt + 1 }) hle rfl).trans ?_
            rw [hflag, if_neg hne]
          · rfl
      · have hbyte : ∀ b l', zreadByte l ≠ some (.byte b, l') :=
          fun b l' hread => hbyte ⟨b, l', hread⟩
        rw [dataCount_ends hbyte]
        by_cases hgot : ∃ e l', zreadByte l = some (.got e, l')
        · obtain ⟨e, l', hread⟩ := hgot
          rw [zrecLoop_got hbelow hread]
          refine (ih _ (zreadByte_length hread) (s := { s with
            crc := (receiver16 len).upd e s.crc, flag := some e }) hle rfl).trans ?_
          rw [if_neg nofun, Nat.add_zero, Nat.min_eq_left hle]
          split <;> rfl
        · rw [zrecLoop_ends hbyte fun e l' hread => hgot ⟨e, l', hread⟩]
          split <;> omega

/-! ### Both sides -/

/-- What `zsend_bin_data` sends for a buffer is received by `zget_data`, and whatever comes behind
it is left. -/
structure RoundTrip (mode : CrcMode) (uninit : ZUninit) (len : UInt16) (buf : ZBuffer)
    (past e : UInt8) (rest : List UInt8) : Prop where
  returns : (zgetData mode uninit len (zsendBinData mode buf past e ++ rest)).res.map Prod.fst =
    some (.got e)
  contents : (zgetData mode uninit len (zsendBinData mode buf past e ++ rest)).buf = buf.bytes
  count : (zgetData mode uninit len (zsendBinData mode buf past e ++ rest)).rxcount.toNat =
    buf.bytes.length

/-- `zget_data` writes no more than `len` bytes into its buffer. -/
def Bounded (mode : CrcMode) (uninit : ZUninit) (len : UInt16) (stream : List UInt8) : Prop :=
  (zgetData mode uninit len stream).buf.length ≤ len.toNat

theorem roundTrip_crc16 {uninit : ZUninit} {len : UInt16} {buf : ZBuffer} {past : UInt8}
    {rest : List UInt8} (hlen : buf.bytes.length ≤ len.toNat) (he : e ∈ frameEnds) :
    RoundTrip .crc16 uninit len buf past e rest := by
  obtain ⟨hi, lo, hsend, hcheck⟩ := exists_zsendBinData16 buf.bytes e
  obtain ⟨tail, htail⟩ : ∃ tail, tail = (if e = zcrcw then [xon] else []) ++ rest := ⟨_, rfl⟩
  have hbelow : ∀ n ≤ buf.bytes.length, (receiver16 len).below n = true :=
    fun n hn => decide_eq_true (Nat.le_trans hn hlen)
  have hfold : ∀ (bs : List UInt8) (c : UInt16),
      bs.foldl (fun crc b => (receiver16 len).upd b crc) c = crc16 bs c := fun bs c => by
    simp only [upd_receiver16]
    rfl
  have hstream : zsendBinData .crc16 buf past e ++ rest =
      zsendAll buf.bytes ++ (zdle :: e :: (zsendAll [hi, lo] ++ tail)) := by
    have heq : zsendBinData .crc16 buf past e =
      zsendBinData16 buf.bytes e ++ if e = zcrcw then [xon] else [] := rfl
    rw [heq, hsend, packet, htail]
    simp
  -- the data, the frame end and the checksum
  have hplain := zrecLoop_plain (z := receiver16 len)
    (s := ⟨0, 0, none, uninit.c, [], 0⟩)
    (l := zdle :: e :: (zsendAll [hi, lo] ++ tail)) buf.bytes rfl
    (fun n hn => hbelow n (by simpa using hn)) fun _ _ => rfl
  have hend := hplain.trans (zrecLoop_got (hbelow _ (by simp)) (zreadByte_frameEnd he _))
  have hall := hend.trans (zrecLoop_check [hi, lo] (hbelow _ (by simp)) rfl nofun rfl)
  have hzero : [hi, lo].foldl (fun crc b => (receiver16 len).upd b crc)
      ((receiver16 len).upd e
        (buf.bytes.foldl (fun crc b => (receiver16 len).upd b crc) 0)) = 0 := by
    have hwhole := hfold (buf.bytes ++ e :: [hi, lo]) 0
    rw [foldl_append, foldl_cons, hcheck] at hwhole
    exact hwhole
  rw [hzero] at hall
  have hget : zgetData .crc16 uninit len (zsendBinData .crc16 buf past e ++ rest) =
      ⟨buf.bytes, 0 + UInt16.ofNat buf.bytes.length, some (.got e, tail)⟩ := by
    rw [hstream, zgetData, zrecData16, zrecData, hall]
    rfl
  have hlt := buf.length_lt
  refine ⟨by rw [hget]; rfl, by rw [hget], ?_⟩
  rw [hget, UInt16.zero_add]
  show (UInt16.ofNat buf.bytes.length).toNat = _
  exact mod_eq_of_lt (Nat.lt_trans hlt (by decide))

theorem residue_bad (bs : List UInt8) (e : UInt8) :
    (bs ++ e :: lowBytes 4 (~~~crc32 bs e)).foldl (fun crc b => updcrc32 b crc)
      0xffffffff = 0xdebb20e3 := by
  have hright : (fun (crc : UInt32) (b : UInt8) => updcrc32 b crc) =
      fun crc b => right entry32 b crc :=
    funext fun crc => funext fun b => updcrc32_eq b crc
  rw [foldl_append, foldl_cons, ← residue_cr3tab, ← TableCrc.right_complement, crc32]
  rw [hright]

theorem put_foldl (ks : List ℕ) (s : ZRec γ) :
    (ks.foldl (fun s k => s.put (UInt8.ofNat k)) s).crc = s.crc ∧
      (ks.foldl (fun s k => s.put (UInt8.ofNat k)) s).crcCnt = s.crcCnt ∧
        (ks.foldl (fun s k => s.put (UInt8.ofNat k)) s).flag = s.flag := by
  induction ks generalizing s with
  | nil => exact ⟨rfl, rfl, rfl⟩
  | cons k ks ih => exact ih (s.put (UInt8.ofNat k))

theorem spaces_keeps {len : UInt16} {c : Int16} (h : spaces len c b s = some s') :
    s'.crc = s.crc ∧ s'.crcCnt = s.crcCnt ∧ s'.flag = s.flag := by
  unfold spaces at h
  split at h
  · cases h
  · cases h
    exact put_foldl _ s

theorem storeRle_keeps {len : UInt16} (h : storeRle len b s = some s') :
    s'.crc = s.crc ∧ s'.crcCnt = s.crcCnt ∧ s'.flag = s.flag := by
  unfold storeRle at h
  split at h
  · -- a byte, or an escape
    split at h
    all_goals
      cases h
      exact ⟨rfl, rfl, rfl⟩
  split at h
  · -- behind an escape
    split at h
    · exact spaces_keeps h
    split at h
    all_goals
      cases h
      exact ⟨rfl, rfl, rfl⟩
  · split at h
    · cases h
    · exact spaces_keeps h

theorem error_crc32 {mode : CrcMode} (hmode : mode ≠ .crc16) (uninit : ZUninit) (len : UInt16)
    (buf : ZBuffer) (past : UInt8) (he : e ∈ frameEnds) (rest : List UInt8) :
    (zgetData mode uninit len (zsendBinData mode buf past e ++ rest)).res.map Prod.fst =
      some .error := by
  cases mode with
  | crc16 => exact absurd rfl hmode
  | crc32 =>
    obtain ⟨s', l', h⟩ := zrecLoop_error (z := receiver32 uninit)
      (s := ⟨0xffffffff, 0, none, uninit.c, [], 0⟩)
      (l := (if e = zcrcw then [xon] else []) ++ rest) buf.bytes
      (lowBytes 4 (~~~crc32 buf.bytes e)) he rfl
      (fun b s s' hs => by cases hs; exact ⟨rfl, rfl, rfl⟩) nofun rfl
      ((congrArg (receiver32 uninit).bad (residue_bad buf.bytes e)).trans rfl)
    have hsend : zsendBinData .crc32 buf past e ++ rest =
        packet buf.bytes e (lowBytes 4 (~~~crc32 buf.bytes e)) ++
          ((if e = zcrcw then [xon] else []) ++ rest) := by
      rw [← zsendBinData32_eq, ← append_assoc]
      rfl
    rw [hsend, zgetData, zrecData32, zrecData, h]
    rfl
  | crc32Rle =>
    obtain ⟨bs, hbs⟩ := exists_zsendBinData32r buf.bytes past e
    obtain ⟨s', l', h⟩ := zrecLoop_error (z := receiver32r len)
      (s := ⟨0xffffffff, 0, none, uninit.c, [], 0⟩)
      (l := (if e = zcrcw then [xon] else []) ++ rest) bs
      (lowBytes 4 (~~~crc32 bs e)) he rfl
      (fun b s s' hs => storeRle_keeps hs) nofun rfl
      ((congrArg (receiver32r len).bad (residue_bad bs e)).trans rfl)
    have hsend : zsendBinData .crc32Rle buf past e ++ rest =
        packet bs e (lowBytes 4 (~~~crc32 bs e)) ++
          ((if e = zcrcw then [xon] else []) ++ rest) := by
      rw [← hbs, ← append_assoc]
      rfl
    rw [hsend, zgetData, zrecData32r, zrecData, h]
    rfl

theorem bounded_crc16_iff {uninit : ZUninit} {len : UInt16} {stream : List UInt8} :
    Bounded .crc16 uninit len stream ↔ dataCount stream ≤ len.toNat := by
  have hlength := length_zrecLoop16 (l := stream) len
    (s := ⟨0, 0, none, uninit.c, [], 0⟩) (Nat.zero_le _)
  rw [if_pos rfl] at hlength
  show (zrecLoop (receiver16 len) stream _).1.buf.length ≤ _ ↔ _
  rw [hlength, length_nil, Nat.zero_add]
  omega

/-- **What is sent is received, in the buffer**, if and only if the checksum has 16 bits, and the
stream has no more data than what there is place for. -/
theorem roundTrip_bounded_iff (mode : CrcMode) (uninit : ZUninit) (len : UInt16) (buf : ZBuffer)
    (hlen : buf.bytes.length ≤ len.toNat) (past e : UInt8) (he : e ∈ frameEnds)
    (rest stream : List UInt8) :
    (RoundTrip mode uninit len buf past e rest ∧ Bounded mode uninit len stream) ↔
      mode = .crc16 ∧ dataCount stream ≤ len.toNat := by
  constructor
  · rintro ⟨htrip, hbounded⟩
    have hmode : mode = .crc16 := Decidable.byContradiction fun hmode => by
      have herror := error_crc32 hmode uninit len buf past he rest
      rw [htrip.returns] at herror
      cases herror
    subst hmode
    exact ⟨rfl, bounded_crc16_iff.1 hbounded⟩
  · rintro ⟨rfl, hcount⟩
    exact ⟨roundTrip_crc16 hlen he, bounded_crc16_iff.2 hcount⟩

/-- Two bytes, one of which needs an escape, and a stream of one byte. -/
theorem roundTrip_bounded_iff_escape :
    RoundTrip .crc16 ⟨fun _ => true, 0⟩ 2 ⟨[0x41, 0x18], by decide⟩ 0 zcrcw [] ∧
      Bounded .crc16 ⟨fun _ => true, 0⟩ 2 [0x41] :=
  have hcount : dataCount [0x41] = 1 := by
    have hread : zreadByte [0x41] = some (.byte 0x41, []) := rfl
    rw [dataCount_byte hread, dataCount_nil]
  (roundTrip_bounded_iff .crc16 ⟨fun _ => true, 0⟩ 2 ⟨[0x41, 0x18], by decide⟩ (by decide)
    0 zcrcw (by decide) [] [0x41]).2 ⟨rfl, by rw [hcount]; decide⟩

/-- A packet of one byte with a checksum of 32 bits is received with an error, and two bytes are
written into a buffer of one. -/
theorem not_roundTrip_bounded :
    ¬ RoundTrip .crc32 ⟨fun _ => true, 0⟩ 1 ⟨[0x41], by decide⟩ 0 0x68 [] ∧
      ¬ Bounded .crc16 ⟨fun _ => true, 0⟩ 1 [0x41, 0x42] := by
  constructor
  · intro htrip
    have herror := error_crc32 (fun h : CrcMode.crc32 = .crc16 => nomatch h) ⟨fun _ => true, 0⟩ 1
      ⟨[0x41], by decide⟩ 0 (by decide : (0x68 : UInt8) ∈ frameEnds) []
    rw [htrip.returns] at herror
    cases herror
  · have hfirst : zreadByte [0x41, 0x42] = some (.byte 0x41, [0x42]) := rfl
    have hsecond : zreadByte [0x42] = some (.byte 0x42, []) := rfl
    rw [bounded_crc16_iff, dataCount_byte hfirst, dataCount_byte hsecond, dataCount_nil]
    decide

end Zmodem

end RtThread
