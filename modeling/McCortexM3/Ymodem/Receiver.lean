import Mathlib.Data.Nat.Notation

/-!
# The YMODEM receiver

`ymodem.c`: the receiver reads packets from a serial device, checks the number against its
complement and the checksum, and hands the data to a callback.  What arrives are bytes, and
silences that are longer than it waits.

## Main definitions

* `crc16` — the checksum.
* `rymDoHandshake`, `rymDoTrans`, `rymDoFin` — the parts of a transfer.
* `rymDoRecv` — a whole transfer.
-/

set_option linter.all false

namespace RtThread

open Nat

/-- `RYM_CODE_NONE`. -/
def rymCodeNone : UInt8 := 0x00

/-- `RYM_CODE_SOH`. -/
def rymCodeSoh : UInt8 := 0x01

/-- `RYM_CODE_STX`. -/
def rymCodeStx : UInt8 := 0x02

/-- `RYM_CODE_EOT`. -/
def rymCodeEot : UInt8 := 0x04

/-- `RYM_CODE_ACK`. -/
def rymCodeAck : UInt8 := 0x06

/-- `RYM_CODE_NAK`. -/
def rymCodeNak : UInt8 := 0x15

/-- `RYM_CODE_CAN`. -/
def rymCodeCan : UInt8 := 0x18

/-- `RYM_CODE_C`. -/
def rymCodeC : UInt8 := 0x43

/-- `_RYM_SOH_PKG_SZ`. -/
def rymSohPkgSz : ℕ := 1 + 2 + 128 + 2

/-- `_RYM_STX_PKG_SZ`. -/
def rymStxPkgSz : ℕ := 1 + 2 + 1024 + 2

/-- `RYM_END_SESSION_SEND_CAN_NUM`. -/
def rymEndSessionSendCanNum : ℕ := 0x07

/-- The errors `RYM_ERR_TMO` to `RYM_ERR_CAN`, and `RT_ENOMEM`. -/
inductive RymErr
  | tmo
  | code
  | seq
  | crc
  | dsz
  | can
  | nomem
  deriving DecidableEq

/-- `enum rym_stage`. -/
inductive RymStage
  | none
  | establishing
  | established
  | transmitting
  | finishing
  | finished
  deriving DecidableEq

/-- `ccitt_table`. -/
def ccittTable : Array UInt16 :=
  #[
    0x0000, 0x1021, 0x2042, 0x3063, 0x4084, 0x50A5, 0x60C6, 0x70E7,
    0x8108, 0x9129, 0xA14A, 0xB16B, 0xC18C, 0xD1AD, 0xE1CE, 0xF1EF,
    0x1231, 0x0210, 0x3273, 0x2252, 0x52B5, 0x4294, 0x72F7, 0x62D6,
    0x9339, 0x8318, 0xB37B, 0xA35A, 0xD3BD, 0xC39C, 0xF3FF, 0xE3DE,
    0x2462, 0x3443, 0x0420, 0x1401, 0x64E6, 0x74C7, 0x44A4, 0x5485,
    0xA56A, 0xB54B, 0x8528, 0x9509, 0xE5EE, 0xF5CF, 0xC5AC, 0xD58D,
    0x3653, 0x2672, 0x1611, 0x0630, 0x76D7, 0x66F6, 0x5695, 0x46B4,
    0xB75B, 0xA77A, 0x9719, 0x8738, 0xF7DF, 0xE7FE, 0xD79D, 0xC7BC,
    0x48C4, 0x58E5, 0x6886, 0x78A7, 0x0840, 0x1861, 0x2802, 0x3823,
    0xC9CC, 0xD9ED, 0xE98E, 0xF9AF, 0x8948, 0x9969, 0xA90A, 0xB92B,
    0x5AF5, 0x4AD4, 0x7AB7, 0x6A96, 0x1A71, 0x0A50, 0x3A33, 0x2A12,
    0xDBFD, 0xCBDC, 0xFBBF, 0xEB9E, 0x9B79, 0x8B58, 0xBB3B, 0xAB1A,
    0x6CA6, 0x7C87, 0x4CE4, 0x5CC5, 0x2C22, 0x3C03, 0x0C60, 0x1C41,
    0xEDAE, 0xFD8F, 0xCDEC, 0xDDCD, 0xAD2A, 0xBD0B, 0x8D68, 0x9D49,
    0x7E97, 0x6EB6, 0x5ED5, 0x4EF4, 0x3E13, 0x2E32, 0x1E51, 0x0E70,
    0xFF9F, 0xEFBE, 0xDFDD, 0xCFFC, 0xBF1B, 0xAF3A, 0x9F59, 0x8F78,
    0x9188, 0x81A9, 0xB1CA, 0xA1EB, 0xD10C, 0xC12D, 0xF14E, 0xE16F,
    0x1080, 0x00A1, 0x30C2, 0x20E3, 0x5004, 0x4025, 0x7046, 0x6067,
    0x83B9, 0x9398, 0xA3FB, 0xB3DA, 0xC33D, 0xD31C, 0xE37F, 0xF35E,
    0x02B1, 0x1290, 0x22F3, 0x32D2, 0x4235, 0x5214, 0x6277, 0x7256,
    0xB5EA, 0xA5CB, 0x95A8, 0x8589, 0xF56E, 0xE54F, 0xD52C, 0xC50D,
    0x34E2, 0x24C3, 0x14A0, 0x0481, 0x7466, 0x6447, 0x5424, 0x4405,
    0xA7DB, 0xB7FA, 0x8799, 0x97B8, 0xE75F, 0xF77E, 0xC71D, 0xD73C,
    0x26D3, 0x36F2, 0x0691, 0x16B0, 0x6657, 0x7676, 0x4615, 0x5634,
    0xD94C, 0xC96D, 0xF90E, 0xE92F, 0x99C8, 0x89E9, 0xB98A, 0xA9AB,
    0x5844, 0x4865, 0x7806, 0x6827, 0x18C0, 0x08E1, 0x3882, 0x28A3,
    0xCB7D, 0xDB5C, 0xEB3F, 0xFB1E, 0x8BF9, 0x9BD8, 0xABBB, 0xBB9A,
    0x4A75, 0x5A54, 0x6A37, 0x7A16, 0x0AF1, 0x1AD0, 0x2AB3, 0x3A92,
    0xFD2E, 0xED0F, 0xDD6C, 0xCD4D, 0xBDAA, 0xAD8B, 0x9DE8, 0x8DC9,
    0x7C26, 0x6C07, 0x5C64, 0x4C45, 0x3CA2, 0x2C83, 0x1CE0, 0x0CC1,
    0xEF1F, 0xFF3E, 0xCF5D, 0xDF7C, 0xAF9B, 0xBFBA, 0x8FD9, 0x9FF8,
    0x6E17, 0x7E36, 0x4E55, 0x5E74, 0x2E93, 0x3EB2, 0x0ED1, 0x1EF0
  ]

/-- One round of `CRC16`. -/
def crc16Byte (crc : UInt16) (q : UInt8) : UInt16 :=
  (crc <<< 8) ^^^ ccittTable.getD (((crc >>> 8) ^^^ q.toUInt16) &&& 0xff).toNat 0

/-- `CRC16`. -/
def crc16 (q : List UInt8) : UInt16 := q.foldl crc16Byte 0

/-- The callbacks, which may be `RT_NULL`.  What `on_data` returns may depend on what it has been
given before. -/
structure RymCallbacks where
  onBegin : Option (List UInt8 → UInt8)
  onData : Option (List (List UInt8) → List UInt8 → UInt8)
  onEnd : Bool

/-- What is still to arrive, what has been sent, the stage, what `on_data` has been given, and
whether `on_end` has been called. -/
structure Rym where
  input : List (Option UInt8)
  sent : List UInt8
  stage : RymStage
  data : List (List UInt8)
  ended : Bool

namespace Rym

/-- `_rym_read_code`: a byte, or `RYM_CODE_NONE` after a silence. -/
def readCode (s : Rym) : UInt8 × Rym :=
  match s.input with
  | [] => (rymCodeNone, s)
  | none :: input => (rymCodeNone, { s with input := input })
  | some code :: input => (code, { s with input := input })

/-- The bytes up to `len` that arrive before a silence, and what is left. -/
def takeBytes : ℕ → List (Option UInt8) → List UInt8 × List (Option UInt8)
  | 0, input => ([], input)
  | _ + 1, [] => ([], [])
  | _ + 1, none :: input => ([], input)
  | len + 1, some b :: input => (b :: (takeBytes len input).1, (takeBytes len input).2)

/-- `_rym_read_data`: `buf[1]` and so on, as many as have been read. -/
def readData (s : Rym) (len : ℕ) : List UInt8 × Rym :=
  ((takeBytes len s.input).1, { s with input := (takeBytes len s.input).2 })

/-- `_rym_putchar`. -/
def putchar (s : Rym) (code : UInt8) : Rym := { s with sent := s.sent ++ [code] }

end Rym

/-- The checksum that two bytes of the buffer hold. -/
def recvCrc (hi lo : UInt8) : UInt16 := (hi.toUInt16 <<< 8) ||| lo.toUInt16

/-- The loop of `_rym_do_handshake`, with the size of the packet that has begun. -/
def rymHandshakeLoop : ℕ → Rym → Option ℕ × Rym
  | 0, s => (none, s)
  | n + 1, s =>
    let r := (s.putchar rymCodeC).readCode
    if r.1 = rymCodeSoh then (some rymSohPkgSz, r.2)
    else if r.1 = rymCodeStx then (some rymStxPkgSz, r.2)
    else rymHandshakeLoop n r.2

/-- What `_rym_do_handshake` does with packet 0. -/
def rymHandshakePacket (cb : RymCallbacks) (dataSz : ℕ) (s : Rym) : Option RymErr × Rym :=
  let r := s.readData (dataSz - 1)
  let buf := r.1
  if buf.length ≠ dataSz - 1 then (some .dsz, r.2)
  else if buf.getD 0 0 ≠ 0 ∨ buf.getD 1 0 ≠ 0xFF then (some .seq, r.2)
  else if recvCrc (buf.getD (dataSz - 3) 0) (buf.getD (dataSz - 2) 0) ≠
      crc16 ((buf.drop 2).take (dataSz - 5)) then (some .crc, r.2)
  else
    match cb.onBegin with
    | some onBegin =>
      if onBegin ((buf.drop 2).take (dataSz - 5)) ≠ rymCodeAck then (some .can, r.2)
      else (none, r.2)
    | none => (none, r.2)

/-- `_rym_do_handshake`. -/
def rymDoHandshake (cb : RymCallbacks) (tmSec : ℕ) (s : Rym) : Option RymErr × Rym :=
  match rymHandshakeLoop tmSec { s with stage := .establishing } with
  | (none, s) => (some .tmo, s)
  | (some dataSz, s) => rymHandshakePacket cb dataSz s

/-- `_rym_trans_data`: an error, or the answer to the packet. -/
def rymTransData (cb : RymCallbacks) (s : Rym) (dataSz : ℕ) : Except RymErr UInt8 × Rym :=
  let tsz := 2 + dataSz + 2
  let r := s.readData tsz
  let buf := r.1
  let s := r.2
  if buf.length ≠ tsz then (.error .dsz, s)
  else if (buf.getD 0 0).toNat + (buf.getD 1 0).toNat ≠ 0xFF then (.error .seq, s)
  else if s.stage = .established ∧ buf.getD 0 0 = 0x00 then
    -- packet 0 once more, since the sender has seen another C
    (.ok rymCodeNone, s)
  else
    let s := { s with stage := .transmitting }
    if recvCrc (buf.getD (tsz - 2) 0) (buf.getD (tsz - 1) 0) ≠
        crc16 ((buf.drop 2).take dataSz) then (.error .crc, s)
    else
      match cb.onData with
      | some onData =>
        (.ok (onData s.data ((buf.drop 2).take dataSz)),
          { s with data := s.data ++ [(buf.drop 2).take dataSz] })
      | none => (.ok rymCodeAck, s)

/-- What `_rym_do_trans` does with a packet: it ends, or goes on. -/
def rymTransPacket (cb : RymCallbacks) (s : Rym) (dataSz : ℕ) : (Option RymErr × Rym) ⊕ Rym :=
  match rymTransData cb s dataSz with
  | (.error err, s) => .inl (some err, s)
  | (.ok code, s) =>
    if code = rymCodeCan then
      .inl (some .can, { s with
        sent := s.sent ++ List.replicate rymEndSessionSendCanNum rymCodeCan })
    else if code = rymCodeAck then .inr (s.putchar rymCodeAck)
    else .inr s

/-- A round of the loop of `_rym_do_trans`. -/
def rymTransRound (cb : RymCallbacks) (s : Rym) : (Option RymErr × Rym) ⊕ Rym :=
  let r := s.readCode
  if r.1 = rymCodeSoh then rymTransPacket cb r.2 128
  else if r.1 = rymCodeStx then rymTransPacket cb r.2 1024
  else if r.1 = rymCodeEot then .inl (none, r.2)
  else .inl (some .code, r.2)

theorem Rym.takeBytes_length (len : ℕ) (input : List (Option UInt8)) :
    (Rym.takeBytes len input).2.length ≤ input.length := by
  induction len generalizing input with
  | zero => exact Nat.le_refl _
  | succ len ih =>
    rcases input with _ | ⟨_ | b, input⟩
    · exact Nat.le_refl _
    · exact le_succ _
    · exact Nat.le_trans (ih input) (le_succ _)

theorem rymTransData_input (cb : RymCallbacks) (s : Rym) (dataSz : ℕ) :
    (rymTransData cb s dataSz).2.input.length ≤ s.input.length := by
  have hread : (s.readData (2 + dataSz + 2)).2.input.length ≤ s.input.length :=
    Rym.takeBytes_length (2 + dataSz + 2) s.input
  unfold rymTransData
  dsimp only
  split
  · exact hread
  · split
    · exact hread
    · split
      · exact hread
      · split
        · exact hread
        · split
          · exact hread
          · exact hread

theorem rymTransPacket_input {cb : RymCallbacks} {s s' : Rym} {dataSz : ℕ}
    (h : rymTransPacket cb s dataSz = .inr s') : s'.input.length ≤ s.input.length := by
  have hdata := rymTransData_input cb s dataSz
  unfold rymTransPacket at h
  split at h
  case h_1 => cases h
  case h_2 code s₁ heq =>
    rw [heq] at hdata
    split at h
    · cases h
    · split at h
      · rw [← Sum.inr.inj h]
        exact hdata
      · rw [← Sum.inr.inj h]
        exact hdata

theorem Rym.readCode_input {s : Rym} (h : s.readCode.1 ≠ rymCodeNone) :
    s.readCode.2.input.length < s.input.length := by
  unfold Rym.readCode at h ⊢
  rcases hi : s.input with _ | ⟨_ | b, input⟩
  · rw [hi] at h
    exact absurd rfl h
  · rw [hi] at h
    exact absurd rfl h
  · exact lt_succ_self _

theorem rymTransRound_input {cb : RymCallbacks} {s s' : Rym}
    (h : rymTransRound cb s = .inr s') : s'.input.length < s.input.length := by
  unfold rymTransRound at h
  dsimp only at h
  split at h
  case isTrue hsoh =>
    exact Nat.lt_of_le_of_lt (rymTransPacket_input h)
      (Rym.readCode_input fun hnone => absurd (hnone.symm.trans hsoh) (by decide))
  case isFalse =>
    split at h
    case isTrue hstx =>
      exact Nat.lt_of_le_of_lt (rymTransPacket_input h)
        (Rym.readCode_input fun hnone => absurd (hnone.symm.trans hstx) (by decide))
    case isFalse =>
      split at h
      · cases h
      · cases h

/-- The loop of `_rym_do_trans`. -/
def rymTransLoop (cb : RymCallbacks) (s : Rym) : Option RymErr × Rym :=
  match _h : rymTransRound cb s with
  | .inl r => r
  | .inr s' => rymTransLoop cb s'
termination_by s.input.length
decreasing_by exact rymTransRound_input _h

/-- `_rym_do_trans`. -/
def rymDoTrans (cb : RymCallbacks) (s : Rym) : Option RymErr × Rym :=
  rymTransLoop cb { (s.putchar rymCodeAck).putchar rymCodeC with stage := .established }

/-- What `_rym_do_fin` does with the last packet. -/
def rymFinPacket (s : Rym) : Option RymErr × Rym :=
  let r := s.readData (rymSohPkgSz - 1)
  let buf := r.1
  if buf.length ≠ rymSohPkgSz - 1 then (some .dsz, r.2)
  else if buf.getD 0 0 ≠ 0 ∨ buf.getD 1 0 ≠ 0xFF then (some .seq, r.2)
  else if recvCrc (buf.getD (rymSohPkgSz - 3) 0) (buf.getD (rymSohPkgSz - 2) 0) ≠
      crc16 ((buf.drop 2).take (rymSohPkgSz - 5)) then (some .crc, r.2)
  else (none, { r.2 with stage := .finished }.putchar rymCodeAck)

/-- `_rym_do_fin`. -/
def rymDoFin (cb : RymCallbacks) (s : Rym) : Option RymErr × Rym :=
  let s := ({ s with stage := .finishing, ended := s.ended || cb.onEnd } : Rym).putchar rymCodeNak
  let r := s.readCode
  if r.1 ≠ rymCodeEot then (some .code, r.2)
  else
    let r := ((r.2.putchar rymCodeAck).putchar rymCodeC).readCode
    if r.1 ≠ rymCodeSoh then (some .code, r.2)
    else rymFinPacket r.2

/-- `_rym_do_recv`, if there is memory for the buffer. -/
def rymDoRecv (cb : RymCallbacks) (memory : Bool) (tmSec : ℕ) (input : List (Option UInt8)) :
    Option RymErr × Rym :=
  let s : Rym := { input := input, sent := [], stage := .none, data := [], ended := false }
  if memory = false then (some .nomem, s)
  else
    match rymDoHandshake cb tmSec s with
    | (some err, s) => (some err, s)
    | (none, s) =>
      match rymDoTrans cb s with
      | (some err, s) => (some err, s)
      | (none, s) => rymDoFin cb s

end RtThread
