import McCortexM3.Ymodem.Receiver
import Mathlib.Algebra.GroupWithZero.Nat
import Mathlib.Data.List.ReduceOption

/-!
# YMODEM transfers

A sender sends packet 0, perhaps several times, then the blocks of the file, each at least once, and
again when the acknowledgement has been lost; and then the end.  The receiver gets the bytes up to
some point, with silences in between.  It does not compare the numbers of the packets, so that it
takes a packet that is sent again for another block.

## Main definitions

* `RymSending` — a file, and how often each packet is sent.
* `Arrives` — what arrives.
* `RymSending.Completes` — everything arrives in time, and no callback objects.
* `RymSending.Right` — the transfer fails, or each block has been handed over once.

## Main results

* `RymSending.right_iff` — that is so exactly when no block is sent again, or the transfer is not
  complete.
* `RymSending.not_right` — a block whose acknowledgement is lost is handed over twice.
-/

set_option linter.all false

namespace RtThread

open Option List Nat

/-! ### Senders -/

/-- A block of 128 or 1024 bytes. -/
structure RymBlock where
  long : Bool
  data : List UInt8
  size : data.length = if long = true then 1024 else 128

/-- The bytes of a packet after the first one. -/
def RymBlock.body (b : RymBlock) (seq : UInt8) : List UInt8 :=
  seq :: (0xFF - seq) :: (b.data ++ [(crc16 b.data >>> 8).toUInt8, (crc16 b.data).toUInt8])

/-- The first byte of a packet. -/
def RymBlock.code (b : RymBlock) : UInt8 := if b.long = true then rymCodeStx else rymCodeSoh

/-- A packet. -/
def RymBlock.packet (b : RymBlock) (seq : UInt8) : List UInt8 := b.code :: b.body seq

/-- The block of the last packet. -/
def RymBlock.null : RymBlock := ⟨false, List.replicate 128 0, rfl⟩

/-- The packets of the blocks from number `n` on, each sent as often as it is. -/
def rymPackets : ℕ → List (RymBlock × ℕ) → List (UInt8 × RymBlock)
  | _, [] => []
  | n, (b, again) :: blocks =>
    List.replicate (again + 1) (UInt8.ofNat n, b) ++ rymPackets (n + 1) blocks

/-- The bytes of packets. -/
def packetBytes (packets : List (UInt8 × RymBlock)) : List UInt8 :=
  packets.flatMap fun p => p.2.packet p.1

/-- What a sender sends: packet 0, and how often it is sent again; the blocks of the file, and how
often each of them is sent again. -/
structure RymSending where
  header : RymBlock
  handshakes : ℕ
  blocks : List (RymBlock × ℕ)

namespace RymSending

/-- The packets before the end. -/
def first (x : RymSending) : List UInt8 :=
  packetBytes (List.replicate x.handshakes (0, x.header))

/-- The packets of the file. -/
def packets (x : RymSending) : List (UInt8 × RymBlock) := rymPackets 1 x.blocks

/-- The end of a transfer, after the first `EOT`. -/
def last : List UInt8 := rymCodeEot :: RymBlock.null.packet 0

/-- The bytes that are sent. -/
def bytes (x : RymSending) : List UInt8 :=
  x.header.packet 0 ++ (x.first ++ (packetBytes x.packets ++ rymCodeEot :: last))

/-- What the receiver should hand over. -/
def file (x : RymSending) : List (List UInt8) := x.blocks.map (·.1.data)

/-- The data of the packets that are sent. -/
def sent (x : RymSending) : List (List UInt8) := x.packets.map (·.2.data)

end RymSending

/-- What arrives: the bytes up to some point, and silences. -/
def Arrives (input : List (Option UInt8)) (bytes : List UInt8) : Prop :=
  input.reduceOption <+: bytes

/-- The bytes arrive at once. -/
def Begins (input : List (Option UInt8)) (bytes : List UInt8) : Prop :=
  ∃ rest, input = bytes.map some ++ rest

/-- `on_data` does not abort the transfer. -/
def Accepted (onData : List (List UInt8) → List UInt8 → UInt8) :
    List (List UInt8) → List (List UInt8) → Prop
  | _, [] => True
  | before, d :: ds => onData before d ≠ rymCodeCan ∧ Accepted onData (before ++ [d]) ds

namespace RymSending

/-- Everything arrives before the receiver gives up, and the callbacks do not object. -/
structure Completes (x : RymSending) (cb : RymCallbacks)
    (onData : List (List UInt8) → List UInt8 → UInt8) (memory : Bool) (tmSec : ℕ)
    (input : List (Option UInt8)) : Prop where
  memory : memory = true
  arrives : ∃ n < tmSec, ∃ input', input = List.replicate n none ++ input' ∧ Begins input' x.bytes
  begins : ∀ onBegin, cb.onBegin = some onBegin → onBegin x.header.data = rymCodeAck
  accepted : Accepted onData [] x.sent

/-- The transfer fails, or `on_data` is given each block once, in order. -/
def Right (x : RymSending) (r : Option RymErr × Rym) : Prop :=
  r.1 ≠ none ∨ r.2.data = x.file

end RymSending

/-! ### Packets -/

theorem recvCrc_split (crc : UInt16) : recvCrc (crc >>> 8).toUInt8 crc.toUInt8 = crc := by
  have h := crc.toNat_lt
  have hhi : crc.toNat >>> 8 % 2 ^ 8 = crc.toNat >>> 8 := by
    rw [shiftRight_eq_div_pow]
    omega
  have hshift : crc.toNat >>> 8 <<< 8 % 2 ^ 16 = crc.toNat >>> 8 <<< 8 := by
    rw [shiftRight_eq_div_pow, shiftLeft_eq]
    omega
  unfold recvCrc
  apply UInt16.toNat_inj.1
  simp only [UInt16.toNat_or, UInt16.toNat_shiftLeft, UInt8.toNat_toUInt16, UInt16.toNat_toUInt8,
    UInt16.toNat_shiftRight]
  change (crc.toNat >>> 8 % 2 ^ 8) <<< 8 % 2 ^ 16 ||| crc.toNat % 2 ^ 8 = crc.toNat
  rw [hhi, hshift, ← shiftLeft_add_eq_or_of_lt (mod_lt _ (by decide)),
    shiftRight_eq_div_pow, shiftLeft_eq]
  omega

theorem toNat_add_complement (seq : UInt8) : seq.toNat + (0xFF - seq).toNat = 0xFF := by
  have h := seq.toNat_lt
  rw [UInt8.toNat_sub_of_le]
  · change seq.toNat + (255 - seq.toNat) = 255
    omega
  · rw [UInt8.le_iff_toNat_le]
    change seq.toNat ≤ 255
    omega

namespace RymBlock

variable (b : RymBlock) (seq : UInt8)

/-- The size of the data of a packet. -/
def dataSz : ℕ := if b.long = true then 1024 else 128

theorem length_body : (b.body seq).length = 2 + b.dataSz + 2 := by
  unfold body dataSz
  rw [← b.size]
  simp
  omega

theorem data_body : ((b.body seq).drop 2).take b.dataSz = b.data := by
  unfold body dataSz
  exact take_left' b.size

theorem crc_body : recvCrc ((b.body seq).getD (2 + b.dataSz + 2 - 2) 0)
    ((b.body seq).getD (2 + b.dataSz + 2 - 1) 0) = crc16 b.data := by
  have hhi : (b.body seq).getD (2 + b.dataSz + 2 - 2) 0 = (crc16 b.data >>> 8).toUInt8 := by
    unfold body dataSz
    rw [← b.size]
    simp [getD_eq_getElem?_getD, Nat.add_comm 2]
  have hlo : (b.body seq).getD (2 + b.dataSz + 2 - 1) 0 = (crc16 b.data).toUInt8 := by
    unfold body dataSz
    rw [← b.size]
    simp [getD_eq_getElem?_getD, Nat.add_comm 2]
  rw [hhi, hlo, recvCrc_split]

end RymBlock

/-! ### Reading -/

namespace Rym

theorem readCode_some {s : Rym} {c : UInt8} {rest : List (Option UInt8)}
    (h : s.input = some c :: rest) : s.readCode = (c, { s with input := rest }) := by
  unfold readCode
  rw [h]

theorem takeBytes_append (bs : List UInt8) (rest : List (Option UInt8)) :
    takeBytes bs.length (bs.map some ++ rest) = (bs, rest) := by
  induction bs with
  | nil => rfl
  | cons b bs ih =>
    show (b :: (takeBytes bs.length (bs.map some ++ rest)).1, _) = _
    rw [ih]
    show (b :: bs, (takeBytes bs.length (bs.map some ++ rest)).2) = _
    rw [ih]

theorem readData_append {s : Rym} {bs : List UInt8} {rest : List (Option UInt8)} {n : ℕ}
    (h : s.input = bs.map some ++ rest) (hn : bs.length = n) :
    s.readData n = (bs, { s with input := rest }) := by
  unfold readData
  rw [h, ← hn, takeBytes_append]

/-- When as many bytes have been read as there should be, they have arrived at once. -/
theorem takeBytes_full {n : ℕ} {input : List (Option UInt8)}
    (h : (takeBytes n input).1.length = n) :
    input = (takeBytes n input).1.map some ++ (takeBytes n input).2 := by
  induction n generalizing input with
  | zero => rfl
  | succ n ih =>
    rcases input with _ | ⟨_ | b, input⟩
    · cases h
    · cases h
    · have hrest := ih (succ.inj h)
      exact congrArg (some b :: ·) hrest

theorem readCode_ne_none {s : Rym} (h : s.readCode.1 ≠ rymCodeNone) :
    s.input = some s.readCode.1 :: s.readCode.2.input := by
  unfold readCode at h ⊢
  rcases hi : s.input with _ | ⟨_ | b, input⟩
  · rw [hi] at h
    exact absurd rfl h
  · rw [hi] at h
    exact absurd rfl h
  · rfl

end Rym

theorem reduceOption_bytes (bs : List UInt8) : (bs.map some).reduceOption = bs := by
  induction bs with
  | nil => rfl
  | cons b bs ih => rw [map_cons, reduceOption_cons_of_some, ih]

variable {input : List (Option UInt8)}

theorem Arrives.append {bs rest : List UInt8}
    (h : Arrives (bs.map some ++ input) (bs ++ rest)) : Arrives input rest := by
  unfold Arrives at h ⊢
  rw [reduceOption_append, reduceOption_bytes] at h
  exact (prefix_append_right_inj bs).1 h

theorem Arrives.silence {n : ℕ} {bytes : List UInt8}
    (h : Arrives (replicate n none ++ input) bytes) : Arrives input bytes := by
  unfold Arrives at h ⊢
  rwa [reduceOption_append, reduceOption_replicate_none, nil_append] at h

theorem Arrives.of_append {bs bs' rest : List UInt8}
    (h : Arrives (bs'.map some ++ input) (bs ++ rest)) (hlen : bs'.length = bs.length) :
    bs' = bs := by
  unfold Arrives at h
  rw [reduceOption_append, reduceOption_bytes] at h
  exact prefix_of_prefix_length_le ((prefix_append bs' _).trans h)
    (prefix_append bs rest) (Nat.le_of_eq hlen) |>.eq_of_length hlen

/-! ### A packet of data -/

section

variable {cb : RymCallbacks} {onData : List (List UInt8) → List UInt8 → UInt8} {s : Rym}
  {b : RymBlock} {seq : UInt8} {rest : List (Option UInt8)}

theorem rymTransData_packet (h : s.input = (b.body seq).map some ++ rest)
    (hcb : cb.onData = some onData) (hseq : s.stage = .established → seq ≠ 0) :
    rymTransData cb s b.dataSz = (.ok (onData s.data b.data),
      { s with input := rest, stage := .transmitting, data := s.data ++ [b.data] }) := by
  unfold rymTransData
  dsimp only
  rw [Rym.readData_append h (b.length_body seq)]
  dsimp only
  rw [if_neg (by rw [b.length_body]; exact fun hne => hne rfl), if_neg, if_neg, if_neg, hcb]
  · dsimp only
    rw [b.data_body]
  · rw [b.crc_body, b.data_body]
    exact fun hne => hne rfl
  · exact fun hest => hseq hest.1 hest.2
  · exact fun hne => hne (toNat_add_complement seq)

theorem rymTransData_again (h : s.input = (b.body 0).map some ++ rest)
    (hstage : s.stage = .established) :
    rymTransData cb s b.dataSz = (.ok rymCodeNone, { s with input := rest }) := by
  unfold rymTransData
  dsimp only
  rw [Rym.readData_append h (b.length_body 0)]
  dsimp only
  rw [if_neg (by rw [b.length_body]; exact fun hne => hne rfl), if_neg, if_pos]
  · exact ⟨hstage, rfl⟩
  · exact fun hne => hne (toNat_add_complement 0)

section

variable (h : s.input = (b.packet seq).map some ++ rest)
include h

theorem rymTransRound_packet :
    rymTransRound cb s =
      rymTransPacket cb { s with input := (b.body seq).map some ++ rest } b.dataSz := by
  have hcode : s.readCode = (b.code, { s with input := (b.body seq).map some ++ rest }) :=
    Rym.readCode_some h
  unfold rymTransRound
  rw [hcode]
  unfold RymBlock.code RymBlock.dataSz
  dsimp only
  cases b.long with
  | true => rfl
  | false => rfl

theorem rymTransRound_accept (hcb : cb.onData = some onData) (hseq : s.stage = .established → seq ≠ 0)
    (hok : onData s.data b.data ≠ rymCodeCan) :
    ∃ s', rymTransRound cb s = .inr s' ∧ s'.input = rest ∧ s'.data = s.data ++ [b.data] ∧
      s'.stage = .transmitting := by
  have hread : ({ s with input := (b.body seq).map some ++ rest } : Rym).input =
      (b.body seq).map some ++ rest := rfl
  rw [rymTransRound_packet h]
  unfold rymTransPacket
  rw [rymTransData_packet hread hcb hseq]
  dsimp only
  rw [if_neg hok]
  split
  · exact ⟨_, rfl, rfl, rfl, rfl⟩
  · exact ⟨_, rfl, rfl, rfl, rfl⟩

theorem rymTransRound_abort (hcb : cb.onData = some onData) (hseq : s.stage = .established → seq ≠ 0)
    (hcan : onData s.data b.data = rymCodeCan) :
    ∃ s', rymTransRound cb s = .inl (some .can, s') := by
  have hread : ({ s with input := (b.body seq).map some ++ rest } : Rym).input =
      (b.body seq).map some ++ rest := rfl
  rw [rymTransRound_packet h]
  unfold rymTransPacket
  rw [rymTransData_packet hread hcb hseq]
  dsimp only
  rw [if_pos hcan]
  exact ⟨_, rfl⟩

end

theorem rymTransRound_again (h : s.input = (b.packet 0).map some ++ rest)
    (hstage : s.stage = .established) : rymTransRound cb s = .inr { s with input := rest } := by
  have hread : ({ s with input := (b.body 0).map some ++ rest } : Rym).input =
      (b.body 0).map some ++ rest := rfl
  rw [rymTransRound_packet h]
  unfold rymTransPacket
  rw [rymTransData_again hread hstage]
  rfl

theorem rymTransRound_eot (h : s.input = some rymCodeEot :: rest) :
    rymTransRound cb s = .inl (none, { s with input := rest }) := by
  unfold rymTransRound
  rw [Rym.readCode_some h]
  rfl

theorem rymTransPacket_reads {n : ℕ} (h : ¬ ∃ err s', rymTransPacket cb s n = .inl (some err, s')) :
    ∃ (bs : List UInt8) (rest : List (Option UInt8)), s.input = bs.map some ++ rest ∧
      bs.length = 2 + n + 2 := by
  by_cases hlen : (s.readData (2 + n + 2)).1.length = 2 + n + 2
  · exact ⟨_, _, Rym.takeBytes_full hlen, hlen⟩
  · refine absurd ⟨.dsz, (s.readData (2 + n + 2)).2, ?_⟩ h
    unfold rymTransPacket rymTransData
    dsimp only
    rw [if_pos hlen]

/-- A round that does not end with an error has read the packet that has been sent. -/
theorem rymTransRound_reads {more : List UInt8} (harr : Arrives s.input (b.packet seq ++ more))
    (h : ¬ ∃ err s', rymTransRound cb s = .inl (some err, s')) :
    ∃ rest, s.input = (b.packet seq).map some ++ rest ∧ Arrives rest more := by
  have hnone : s.readCode.1 ≠ rymCodeNone := by
    intro hnone
    refine h ⟨.code, s.readCode.2, ?_⟩
    unfold rymTransRound
    dsimp only
    rw [hnone]
    rfl
  have hinput := Rym.readCode_ne_none hnone
  have hcode : [s.readCode.1] = [b.code] := by
    rw [hinput] at harr
    have harr' : Arrives ([s.readCode.1].map some ++ s.readCode.2.input)
        ([b.code] ++ (b.body seq ++ more)) := harr
    exact harr'.of_append rfl
  have hround : rymTransRound cb s = rymTransPacket cb s.readCode.2 b.dataSz := by
    unfold rymTransRound
    dsimp only
    rw [singleton_inj.1 hcode]
    unfold RymBlock.code RymBlock.dataSz
    cases b.long with
    | true => rfl
    | false => rfl
  rw [hround] at h
  obtain ⟨bs, rest, hrest, hlen⟩ := rymTransPacket_reads h
  have hpacket : s.input = (b.code :: bs).map some ++ rest := by
    rw [hinput, hrest, singleton_inj.1 hcode]
    rfl
  have hbs : b.code :: bs = b.packet seq := by
    rw [hpacket] at harr
    refine Arrives.of_append harr ?_
    unfold RymBlock.packet
    rw [length_cons, length_cons, hlen, b.length_body]
  rw [hbs] at hpacket
  rw [hpacket] at harr
  exact ⟨rest, hpacket, harr.append⟩

end

/-! ### The loop -/

section

variable {cb : RymCallbacks} {onData : List (List UInt8) → List UInt8 → UInt8}

variable {s : Rym}

theorem rymTransLoop_inl {r : Option RymErr × Rym} (h : rymTransRound cb s = .inl r) :
    rymTransLoop cb s = r := by
  rw [rymTransLoop]
  split
  case h_1 heq => exact Sum.inl.inj (heq.symm.trans h)
  case h_2 heq => cases heq.symm.trans h

theorem rymTransLoop_inr {s' : Rym} (h : rymTransRound cb s = .inr s') :
    rymTransLoop cb s = rymTransLoop cb s' := by
  rw [rymTransLoop]
  split
  case h_1 heq => cases heq.symm.trans h
  case h_2 heq => rw [Sum.inr.inj (heq.symm.trans h)]

theorem rymTransRound_of_loop (h : (rymTransLoop cb s).1 = none) :
    ¬ ∃ err s', rymTransRound cb s = .inl (some err, s') := by
  rintro ⟨err, s', herr⟩
  rw [rymTransLoop_inl herr] at h
  cases h

theorem packetBytes_cons (seq : UInt8) (b : RymBlock) (packets : List (UInt8 × RymBlock)) :
    packetBytes ((seq, b) :: packets) = b.packet seq ++ packetBytes packets := rfl

theorem rymTransLoop_complete {packets : List (UInt8 × RymBlock)}
    {rest : List (Option UInt8)}
    (h : s.input = (packetBytes packets).map some ++ some rymCodeEot :: rest)
    (hcb : cb.onData = some onData) (hseq : s.stage = .established → ∀ p ∈ packets.head?, p.1 ≠ 0)
    (hok : Accepted onData s.data (packets.map (·.2.data))) :
    ∃ s', rymTransLoop cb s = (none, s') ∧ s'.input = rest ∧
      s'.data = s.data ++ packets.map (·.2.data) := by
  induction packets generalizing s with
  | nil =>
    refine ⟨_, rymTransLoop_inl (rymTransRound_eot h), rfl, ?_⟩
    rw [map_nil, append_nil]
  | cons p packets ih =>
    obtain ⟨seq, b⟩ := p
    rw [packetBytes_cons, map_append, append_assoc] at h
    obtain ⟨s₁, hround, hinput, hdata, hstage⟩ := rymTransRound_accept h hcb
      (fun hest => hseq hest _ rfl) hok.1
    obtain ⟨s', hloop, hrest, hdata'⟩ := ih hinput (fun hest => by rw [hstage] at hest; cases hest)
      (by rw [hdata]; exact hok.2)
    refine ⟨s', (rymTransLoop_inr hround).trans hloop, hrest, ?_⟩
    rw [hdata', hdata, append_assoc]
    rfl

theorem rymTransLoop_sound {packets : List (UInt8 × RymBlock)} {more : List UInt8}
    (harr : Arrives s.input (packetBytes packets ++ rymCodeEot :: more))
    (hcb : cb.onData = some onData) (hseq : s.stage = .established → ∀ p ∈ packets.head?, p.1 ≠ 0)
    (h : (rymTransLoop cb s).1 = none) :
    (∃ rest, s.input = (packetBytes packets).map some ++ some rymCodeEot :: rest ∧
      Arrives rest more) ∧ Accepted onData s.data (packets.map (·.2.data)) := by
  induction packets generalizing s with
  | nil =>
    have hround := rymTransRound_of_loop h
    have hnone : s.readCode.1 ≠ rymCodeNone := by
      intro hnone
      refine hround ⟨.code, s.readCode.2, ?_⟩
      unfold rymTransRound
      dsimp only
      rw [hnone]
      rfl
    have hinput := Rym.readCode_ne_none hnone
    rw [hinput] at harr
    have harr' : Arrives ([s.readCode.1].map some ++ s.readCode.2.input) ([rymCodeEot] ++ more) :=
      harr
    have hcode := harr'.of_append rfl
    rw [singleton_inj.1 hcode] at hinput
    rw [hcode] at harr'
    exact ⟨⟨_, hinput, harr'.append⟩, trivial⟩
  | cons p packets ih =>
    obtain ⟨seq, b⟩ := p
    rw [packetBytes_cons, append_assoc] at harr
    obtain ⟨rest, hinput, hrest⟩ := rymTransRound_reads harr (rymTransRound_of_loop h)
    have hseq' : s.stage = .established → seq ≠ 0 := fun hest => hseq hest _ rfl
    by_cases hcan : onData s.data b.data = rymCodeCan
    · obtain ⟨s', herr⟩ := rymTransRound_abort hinput hcb hseq' hcan
      exact absurd ⟨_, _, herr⟩ (rymTransRound_of_loop h)
    · obtain ⟨s₁, hround, hinput₁, hdata, hstage⟩ := rymTransRound_accept hinput hcb hseq' hcan
      rw [rymTransLoop_inr hround] at h
      obtain ⟨⟨rest', hrest', harr'⟩, hok⟩ := ih (by rw [hinput₁]; exact hrest)
        (fun hest => by rw [hstage] at hest; cases hest) h
      refine ⟨⟨rest', ?_, harr'⟩, hcan, by rw [← hdata]; exact hok⟩
      rw [hinput, ← hinput₁, hrest', packetBytes_cons, map_append, append_assoc]

theorem rymTransLoop_again (cb : RymCallbacks) {b : RymBlock} {n : ℕ} {s : Rym}
    {rest : List (Option UInt8)}
    (h : s.input = (packetBytes (replicate n (0, b))).map some ++ rest)
    (hstage : s.stage = .established) :
    rymTransLoop cb s = rymTransLoop cb { s with input := rest } := by
  induction n generalizing s with
  | zero =>
    change s.input = rest at h
    rw [← h]
  | succ n ih =>
    rw [replicate_succ, packetBytes_cons, map_append, append_assoc] at h
    rw [rymTransLoop_inr (rymTransRound_again h hstage)]
    exact ih (s := { s with
      input := (packetBytes (replicate n (0, b))).map some ++ rest }) rfl hstage

theorem rymTransLoop_again_sound {b : RymBlock} {n : ℕ} {more : List UInt8}
    (harr : Arrives s.input (packetBytes (replicate n (0, b)) ++ more))
    (hstage : s.stage = .established) (h : (rymTransLoop cb s).1 = none) :
    ∃ rest, s.input = (packetBytes (replicate n (0, b))).map some ++ rest ∧ Arrives rest more := by
  induction n generalizing s with
  | zero => exact ⟨s.input, rfl, harr⟩
  | succ n ih =>
    rw [replicate_succ, packetBytes_cons, append_assoc] at harr
    obtain ⟨rest, hinput, hrest⟩ := rymTransRound_reads harr (rymTransRound_of_loop h)
    rw [rymTransLoop_inr (rymTransRound_again hinput hstage)] at h
    obtain ⟨rest', hrest', harr'⟩ := ih (s := { s with input := rest }) hrest hstage h
    change rest = _ at hrest'
    refine ⟨rest', ?_, harr'⟩
    rw [hinput, hrest', replicate_succ, packetBytes_cons, map_append, append_assoc]

end

/-! ### The handshake -/

section

variable {cb : RymCallbacks} {s s' : Rym} {b : RymBlock} {rest : List (Option UInt8)}

/-- The size of packet 0. -/
def RymBlock.pkgSz (b : RymBlock) : ℕ := if b.long = true then rymStxPkgSz else rymSohPkgSz

theorem RymBlock.pkgSz_eq (b : RymBlock) : b.pkgSz = b.dataSz + 5 := by
  unfold pkgSz dataSz
  cases b.long with
  | true => rfl
  | false => rfl

variable {tmSec : ℕ}

theorem rymHandshakeLoop_silent {s s₁ : Rym}
    (h : (s.putchar rymCodeC).readCode = (rymCodeNone, s₁)) :
    rymHandshakeLoop (tmSec + 1) s = rymHandshakeLoop tmSec s₁ := by
  rw [rymHandshakeLoop, h]
  rfl

theorem rymHandshakeLoop_complete {n : ℕ} {s : Rym} (hn : n < tmSec)
    (h : s.input = replicate n none ++ some b.code :: rest) :
    ∃ s', rymHandshakeLoop tmSec s = (some b.pkgSz, s') ∧ s'.input = rest ∧ s'.data = s.data := by
  induction tmSec generalizing n s with
  | zero => exact absurd hn (Nat.not_lt_zero n)
  | succ tmSec ih =>
    cases n with
    | zero =>
      have hread : (s.putchar rymCodeC).readCode =
          (b.code, { s.putchar rymCodeC with input := rest }) := Rym.readCode_some h
      rw [rymHandshakeLoop, hread]
      unfold RymBlock.code RymBlock.pkgSz
      cases b.long with
      | true => exact ⟨_, rfl, rfl, rfl⟩
      | false => exact ⟨_, rfl, rfl, rfl⟩
    | succ n =>
      have hread : (s.putchar rymCodeC).readCode = (rymCodeNone,
          { s.putchar rymCodeC with input := replicate n none ++ some b.code :: rest }) := by
        have hinput : (s.putchar rymCodeC).input =
            none :: (replicate n none ++ some b.code :: rest) := h
        unfold Rym.readCode
        rw [hinput]
      rw [rymHandshakeLoop_silent hread]
      obtain ⟨s', hloop, hrest, hdata⟩ := ih (lt_of_succ_lt_succ hn)
        (s := { s.putchar rymCodeC with input := replicate n none ++ some b.code :: rest }) rfl
      exact ⟨s', hloop, hrest, hdata⟩

theorem rymHandshakeLoop_sound {sz : ℕ} {s : Rym} {more : List UInt8}
    (harr : Arrives s.input (b.code :: more)) (h : rymHandshakeLoop tmSec s = (some sz, s')) :
    sz = b.pkgSz ∧ s'.data = s.data ∧
      ∃ n < tmSec, s.input = replicate n none ++ some b.code :: s'.input := by
  induction tmSec generalizing s with
  | zero => cases h
  | succ tmSec ih =>
    have hputchar : (s.putchar rymCodeC).input = s.input := rfl
    rcases hi : s.input with _ | ⟨_ | c, input⟩
    · -- nothing arrives any more
      have hread : (s.putchar rymCodeC).readCode = (rymCodeNone, s.putchar rymCodeC) := by
        unfold Rym.readCode
        rw [hputchar, hi]
      rw [rymHandshakeLoop_silent hread] at h
      obtain ⟨-, -, n, -, hn⟩ := ih (by rw [hputchar]; exact harr) h
      rw [hputchar, hi] at hn
      cases n <;> cases hn
    · have hread : (s.putchar rymCodeC).readCode =
          (rymCodeNone, { s.putchar rymCodeC with input := input }) := by
        unfold Rym.readCode
        rw [hputchar, hi]
      rw [rymHandshakeLoop_silent hread] at h
      rw [hi] at harr
      obtain ⟨hsz, hdata, n, hn, hinput⟩ := ih
        (show Arrives input _ from Arrives.silence (n := 1) harr) h
      refine ⟨hsz, hdata, n + 1, succ_lt_succ hn, ?_⟩
      exact congrArg (none :: ·) hinput
    · have hread : (s.putchar rymCodeC).readCode =
          (c, { s.putchar rymCodeC with input := input }) := Rym.readCode_some hi
      have hcode : [c] = [b.code] := by
        rw [hi] at harr
        have harr' : Arrives ([c].map some ++ input) ([b.code] ++ more) := harr
        exact harr'.of_append rfl
      rw [rymHandshakeLoop, hread, singleton_inj.1 hcode] at h
      rw [singleton_inj.1 hcode]
      revert h
      unfold RymBlock.code RymBlock.pkgSz
      cases b.long with
      | true | false =>
        intro h
        obtain ⟨hsz, rfl⟩ := Prod.mk.inj h
        exact ⟨(some.inj hsz).symm, rfl, 0, succ_pos _, rfl⟩

theorem rymHandshakePacket_eq (h : s.input = (b.body 0).map some ++ rest) :
    rymHandshakePacket cb b.pkgSz s =
      match cb.onBegin with
      | some onBegin =>
        if onBegin b.data ≠ rymCodeAck then (some .can, { s with input := rest })
        else (none, { s with input := rest })
      | none => (none, { s with input := rest }) := by
  have hlen := b.length_body 0
  have hcrc := b.crc_body 0
  have hdata := b.data_body 0
  unfold rymHandshakePacket
  dsimp only
  rw [b.pkgSz_eq, show b.dataSz + 5 - 1 = 2 + b.dataSz + 2 by omega,
    show b.dataSz + 5 - 3 = 2 + b.dataSz + 2 - 2 by omega,
    show b.dataSz + 5 - 2 = 2 + b.dataSz + 2 - 1 by omega,
    show b.dataSz + 5 - 5 = b.dataSz by omega,
    Rym.readData_append h hlen]
  dsimp only
  have hcrc' : ¬ recvCrc ((b.body 0).getD (2 + b.dataSz + 2 - 2) 0)
      ((b.body 0).getD (2 + b.dataSz + 2 - 1) 0) ≠ crc16 (((b.body 0).drop 2).take b.dataSz) := by
    rw [hdata]
    exact fun hne => hne hcrc
  have hhead : ¬ ((b.body 0).getD 0 0 ≠ 0 ∨ (b.body 0).getD 1 0 ≠ 255) := by
    rintro (hne | hne)
    · exact hne rfl
    · exact hne rfl
  rw [if_neg (fun hne => hne hlen), if_neg hhead, if_neg hcrc']
  exact hdata ▸ rfl

theorem rymHandshakePacket_reads (h : (rymHandshakePacket cb b.pkgSz s).1 = none) :
    ∃ (bs : List UInt8) (rest : List (Option UInt8)), s.input = bs.map some ++ rest ∧
      bs.length = 2 + b.dataSz + 2 := by
  by_cases hlen : (s.readData (b.pkgSz - 1)).1.length = b.pkgSz - 1
  · have hsz := b.pkgSz_eq
    exact ⟨_, _, Rym.takeBytes_full hlen, hlen.trans (by omega)⟩
  · unfold rymHandshakePacket at h
    dsimp only at h
    rw [if_pos hlen] at h
    cases h

/-- `on_begin` does not object. -/
def Begun (cb : RymCallbacks) (b : RymBlock) : Prop :=
  ∀ onBegin, cb.onBegin = some onBegin → onBegin b.data = rymCodeAck

theorem rymDoHandshake_complete {n : ℕ} (hn : n < tmSec)
    (h : s.input = replicate n none ++ ((b.packet 0).map some ++ rest)) (hbegun : Begun cb b) :
    ∃ s', rymDoHandshake cb tmSec s = (none, s') ∧ s'.input = rest ∧ s'.data = s.data := by
  have h' : ({ s with stage := .establishing } : Rym).input =
      replicate n none ++ some b.code :: ((b.body 0).map some ++ rest) := h
  obtain ⟨s₁, hloop, hinput, hdata⟩ := rymHandshakeLoop_complete hn h'
  unfold rymDoHandshake
  rw [hloop]
  dsimp only
  rw [rymHandshakePacket_eq hinput]
  cases hb : cb.onBegin with
  | none => exact ⟨_, rfl, rfl, hdata⟩
  | some onBegin =>
    dsimp only
    rw [if_neg fun hne => hne (hbegun onBegin hb)]
    exact ⟨_, rfl, rfl, hdata⟩

theorem rymDoHandshake_sound {more : List UInt8}
    (harr : Arrives s.input (b.packet 0 ++ more)) (h : rymDoHandshake cb tmSec s = (none, s')) :
    Begun cb b ∧ s'.data = s.data ∧ Arrives s'.input more ∧
      ∃ n < tmSec, s.input = replicate n none ++ ((b.packet 0).map some ++ s'.input) := by
  unfold rymDoHandshake at h
  split at h
  case h_1 => cases h
  case h_2 sz s₁ heq =>
    obtain ⟨rfl, hdata, n, hn, hinput⟩ :=
      rymHandshakeLoop_sound (s := { s with stage := .establishing }) (b := b) harr heq
    have hnone : (rymHandshakePacket cb b.pkgSz s₁).1 = none := by rw [h]
    obtain ⟨bs, rest, hrest, hlen⟩ := rymHandshakePacket_reads hnone
    change s.input = _ at hinput
    have hpacket : s.input = replicate n none ++ ((b.code :: bs).map some ++ rest) := by
      rw [hinput, hrest]
      rfl
    rw [hpacket] at harr
    have harr' := Arrives.silence harr
    have hbs : b.code :: bs = b.packet 0 := by
      refine Arrives.of_append harr' ?_
      unfold RymBlock.packet
      rw [length_cons, length_cons, hlen, b.length_body]
    have hbody : bs = b.body 0 := (cons_inj_right b.code).1 hbs
    rw [hbs] at hpacket harr'
    rw [hbody] at hrest
    rw [rymHandshakePacket_eq hrest] at h
    have hdone : s' = { s₁ with input := rest } → s'.data = s.data ∧ Arrives s'.input more ∧
        ∃ n < tmSec, s.input = replicate n none ++ ((b.packet 0).map some ++ s'.input) := by
      rintro rfl
      exact ⟨hdata, harr'.append, n, hn, hpacket⟩
    cases hb : cb.onBegin with
    | none =>
      rw [hb] at h
      refine ⟨fun f hf => ?_, hdone (Prod.mk.inj h).2.symm⟩
      rw [hb] at hf
      cases hf
    | some onBegin =>
      rw [hb] at h
      by_cases hack : onBegin b.data = rymCodeAck
      · refine ⟨fun f hf => ?_, hdone ?_⟩
        · rw [hb] at hf
          cases hf
          exact hack
        · dsimp only at h
          rw [if_neg fun hne => hne hack] at h
          exact (Prod.mk.inj h).2.symm
      · dsimp only at h
        rw [if_pos hack] at h
        cases h

end

/-! ### The end -/

section

variable {cb : RymCallbacks} {s s' : Rym}

theorem rymFinPacket_complete {rest : List (Option UInt8)}
    (h : s.input = (RymBlock.null.body 0).map some ++ rest) :
    ∃ s', rymFinPacket s = (none, s') ∧ s'.data = s.data := by
  have hlen : (RymBlock.null.body 0).length = rymSohPkgSz - 1 := RymBlock.null.length_body 0
  have hcrc := RymBlock.null.crc_body 0
  have hdata := RymBlock.null.data_body 0
  unfold rymFinPacket
  dsimp only
  rw [Rym.readData_append h hlen]
  dsimp only
  rw [if_neg (fun hne => hne hlen), if_neg, if_neg]
  · exact ⟨_, rfl, rfl⟩
  · change ¬ recvCrc _ _ ≠ crc16 (((RymBlock.null.body 0).drop 2).take RymBlock.null.dataSz)
    rw [hdata]
    exact fun hne => hne hcrc
  · rintro (hne | hne)
    · exact hne rfl
    · exact hne rfl

theorem rymDoFin_eq (cb : RymCallbacks) {rest : List (Option UInt8)}
    (h : s.input = some rymCodeEot :: some rymCodeSoh :: rest) :
    ∃ s₁, s₁.input = rest ∧ s₁.data = s.data ∧ rymDoFin cb s = rymFinPacket s₁ := by
  unfold rymDoFin
  dsimp only
  generalize hs₀ : Rym.putchar _ rymCodeNak = s₀
  have hinput : s₀.input = some rymCodeEot :: some rymCodeSoh :: rest := by
    rw [← hs₀]
    exact h
  have hread : (((s₀.readCode.2).putchar rymCodeAck).putchar rymCodeC).input =
      some rymCodeSoh :: rest := by
    rw [Rym.readCode_some hinput]
    rfl
  rw [Rym.readCode_some hread, Rym.readCode_some hinput, if_neg (fun hne => hne rfl),
    if_neg (fun hne => hne rfl)]
  refine ⟨_, rfl, ?_, rfl⟩
  rw [← hs₀]
  rfl

theorem rymDoFin_complete (cb : RymCallbacks) {rest : List (Option UInt8)}
    (h : s.input = RymSending.last.map some ++ rest) :
    ∃ s', rymDoFin cb s = (none, s') ∧ s'.data = s.data := by
  obtain ⟨s₁, hinput, hdata, heq⟩ := rymDoFin_eq cb h
  obtain ⟨s', hfin, hdata'⟩ := rymFinPacket_complete hinput
  exact ⟨s', heq.trans hfin, hdata'.trans hdata⟩

theorem rymFinPacket_reads (h : (rymFinPacket s).1 = none) :
    ∃ (bs : List UInt8) (rest : List (Option UInt8)), s.input = bs.map some ++ rest ∧
      bs.length = rymSohPkgSz - 1 := by
  by_cases hlen : (s.readData (rymSohPkgSz - 1)).1.length = rymSohPkgSz - 1
  · exact ⟨_, _, Rym.takeBytes_full hlen, hlen⟩
  · unfold rymFinPacket at h
    dsimp only at h
    rw [if_pos hlen] at h
    cases h

theorem rymDoFin_sound (harr : Arrives s.input RymSending.last) (h : (rymDoFin cb s).1 = none) :
    Begins s.input RymSending.last := by
  have hcodes : ∃ input, s.input = some rymCodeEot :: some rymCodeSoh :: input := by
    unfold rymDoFin at h
    dsimp only at h
    generalize hs₀ : Rym.putchar _ rymCodeNak = s₀ at h
    have hinput : s₀.input = s.input := by rw [← hs₀]; rfl
    by_cases heot : s₀.readCode.1 = rymCodeEot
    · rw [if_neg (fun hne => hne heot)] at h
      have hread := Rym.readCode_ne_none (s := s₀) (by rw [heot]; decide)
      generalize hs₁ : (s₀.readCode.2.putchar rymCodeAck).putchar rymCodeC = s₁ at h
      have hinput₁ : s₁.input = s₀.readCode.2.input := by rw [← hs₁]; rfl
      by_cases hsoh : s₁.readCode.1 = rymCodeSoh
      · have hread₁ := Rym.readCode_ne_none (s := s₁) (by rw [hsoh]; decide)
        refine ⟨s₁.readCode.2.input, ?_⟩
        rw [← hinput, hread, heot, ← hinput₁, hread₁, hsoh]
      · rw [if_pos hsoh] at h
        cases h
    · rw [if_pos heot] at h
      cases h
  obtain ⟨input, hinput⟩ := hcodes
  obtain ⟨s₁, hinput₁, -, heq⟩ := rymDoFin_eq cb hinput
  rw [heq] at h
  obtain ⟨bs, rest, hrest, hlen⟩ := rymFinPacket_reads h
  have hpacket : s.input = (rymCodeEot :: rymCodeSoh :: bs).map some ++ rest := by
    rw [hinput, ← hinput₁, hrest]
    rfl
  have hbs : rymCodeEot :: rymCodeSoh :: bs = RymSending.last := by
    rw [hpacket, ← append_nil RymSending.last] at harr
    refine Arrives.of_append harr ?_
    rw [length_cons, length_cons, hlen]
    decide +kernel
  exact ⟨rest, by rw [← hbs]; exact hpacket⟩

end

/-! ### Transfers -/

namespace RymSending

variable {x : RymSending} {cb : RymCallbacks} {onData : List (List UInt8) → List UInt8 → UInt8}
  {memory : Bool} {tmSec : ℕ} {input : List (Option UInt8)}

theorem head_packets (x : RymSending) : ∀ p ∈ x.packets.head?, p.1 ≠ 0 := by
  intro p hp
  unfold packets at hp
  rcases hb : x.blocks with _ | ⟨⟨b, again⟩, blocks⟩
  · rw [hb] at hp
    cases hp
  · rw [hb] at hp
    cases hp
    show UInt8.ofNat 1 ≠ 0
    decide

theorem complete (h : x.Completes cb onData memory tmSec input) (hcb : cb.onData = some onData) :
    ∃ s', rymDoRecv cb memory tmSec input = (none, s') ∧ s'.data = x.sent := by
  obtain ⟨hmem, ⟨n, hn, input', rfl, rest, rfl⟩, hbegun, hok⟩ := h
  generalize hs₀ :
    (⟨replicate n none ++ (x.bytes.map some ++ rest), [], .none, [], false⟩ : Rym) = s₀
  have hdata₀ : s₀.data = [] := by rw [← hs₀]
  have hinput₀ : s₀.input = replicate n none ++ ((x.header.packet 0).map some ++
      (x.first.map some ++ ((packetBytes x.packets).map some ++
        some rymCodeEot :: (last.map some ++ rest)))) := by
    rw [← hs₀]
    unfold bytes
    simp only [map_append, append_assoc, map_cons, cons_append]
  obtain ⟨s₁, hhand, hinput₁, hdata₁⟩ := rymDoHandshake_complete hn hinput₀ hbegun
  have hagain := rymTransLoop_again cb (b := x.header) (n := x.handshakes)
    (s := { (s₁.putchar rymCodeAck).putchar rymCodeC with stage := .established }) hinput₁ rfl
  obtain ⟨s₂, hloop, hinput₂, hdata₂⟩ := rymTransLoop_complete
    (s := { (s₁.putchar rymCodeAck).putchar rymCodeC with
      stage := .established
      input := (packetBytes x.packets).map some ++ some rymCodeEot :: (last.map some ++ rest) })
    rfl hcb (fun _ => x.head_packets) (by
      show Accepted onData s₁.data _
      rw [hdata₁, hdata₀]
      exact hok)
  obtain ⟨s₃, hfin, hdata₃⟩ := rymDoFin_complete cb hinput₂
  refine ⟨s₃, ?_, ?_⟩
  · unfold rymDoRecv
    dsimp only
    rw [hs₀, if_neg (by rw [hmem]; exact Bool.noConfusion), hhand]
    dsimp only
    unfold rymDoTrans
    rw [hagain, hloop]
    exact hfin
  · rw [hdata₃, hdata₂]
    show s₁.data ++ _ = x.sent
    rw [hdata₁, hdata₀]
    rfl

theorem sound (harr : Arrives input x.bytes) (hcb : cb.onData = some onData)
    (h : (rymDoRecv cb memory tmSec input).1 = none) :
    x.Completes cb onData memory tmSec input := by
  unfold rymDoRecv at h
  dsimp only at h
  split at h
  case isTrue => cases h
  case isFalse hmem =>
    generalize hs₀ : (⟨input, [], .none, [], false⟩ : Rym) = s₀ at h
    have hinput₀ : s₀.input = input := by rw [← hs₀]
    have hdata₀ : s₀.data = [] := by rw [← hs₀]
    split at h
    case h_1 => cases h
    case h_2 s₁ hhand =>
      obtain ⟨hbegun, hdata₁, harr₁, n, hn, hinput⟩ :=
        rymDoHandshake_sound (b := x.header) (by rw [hinput₀]; exact harr) hhand
      split at h
      case h_1 => cases h
      case h_2 s₂ htrans =>
        unfold rymDoTrans at htrans
        have hnone : (rymTransLoop cb
            { (s₁.putchar rymCodeAck).putchar rymCodeC with stage := .established }).1 = none := by
          rw [htrans]
        obtain ⟨rest₁, hinput₁, harr₂⟩ := rymTransLoop_again_sound (b := x.header)
          (n := x.handshakes)
          (s := { (s₁.putchar rymCodeAck).putchar rymCodeC with stage := .established })
          harr₁ rfl hnone
        have hagain := rymTransLoop_again cb (b := x.header) (n := x.handshakes) hinput₁ rfl
        rw [hagain] at hnone htrans
        obtain ⟨⟨rest₂, hrest₁, harr₃⟩, hok⟩ :=
          rymTransLoop_sound harr₂ hcb (fun _ => x.head_packets) hnone
        obtain ⟨s₂', hloop, hinput₂, -⟩ :=
          rymTransLoop_complete hrest₁ hcb (fun _ => x.head_packets) hok
        have hs₂ : s₂' = s₂ := (Prod.mk.inj (hloop.symm.trans htrans)).2
        obtain ⟨rest, hrest⟩ := rymDoFin_sound (by rw [← hs₂, hinput₂]; exact harr₃) h
        refine ⟨by simpa using hmem, ⟨n, hn, _, hinput₀ ▸ hinput, rest, ?_⟩, hbegun, ?_⟩
        · change s₁.input = x.first.map some ++ rest₁ at hinput₁
          change rest₁ = _ at hrest₁
          rw [hinput₁, hrest₁, ← hinput₂, hs₂, hrest]
          unfold bytes
          simp only [map_append, append_assoc, map_cons, cons_append]
        · change Accepted onData s₁.data _ at hok
          rw [hdata₁, hdata₀] at hok
          exact hok

theorem length_rymPackets (n : ℕ) (blocks : List (RymBlock × ℕ)) :
    (rymPackets n blocks).length = blocks.length + (blocks.map (·.2)).sum := by
  induction blocks generalizing n with
  | nil => rfl
  | cons b blocks ih =>
    simp only [rymPackets, length_append, length_replicate, ih, length_cons, map_cons, sum_cons]
    omega

theorem rymPackets_once {n : ℕ} {blocks : List (RymBlock × ℕ)} (h : ∀ b ∈ blocks, b.2 = 0) :
    (rymPackets n blocks).map (·.2.data) = blocks.map (·.1.data) := by
  induction blocks generalizing n with
  | nil => rfl
  | cons b blocks ih =>
    obtain ⟨b, again⟩ := b
    obtain rfl : again = 0 := h _ mem_cons_self
    rw [map_cons, ← ih (n := n + 1) fun b hb => h b (mem_cons_of_mem _ hb)]
    rfl

theorem sent_eq_file_iff (x : RymSending) : x.sent = x.file ↔ ∀ b ∈ x.blocks, b.2 = 0 := by
  constructor
  · intro h b hb
    have hlen := congrArg List.length h
    unfold sent file packets at hlen
    rw [length_map, length_map, length_rymPackets] at hlen
    have hsum : (x.blocks.map (·.2)).sum = 0 := by omega
    exact List.sum_eq_zero_iff_forall_eq_nat.1 hsum b.2 (List.mem_map_of_mem hb)
  · exact fun h => rymPackets_once h

/-- **The transfer fails or hands over each block once exactly when no block is sent again, or the
transfer is not complete.** -/
theorem right_iff (x : RymSending) (cb : RymCallbacks)
    (onData : List (List UInt8) → List UInt8 → UInt8) (hcb : cb.onData = some onData)
    (memory : Bool) (tmSec : ℕ) (input : List (Option UInt8)) (harr : Arrives input x.bytes) :
    x.Right (rymDoRecv cb memory tmSec input) ↔
      (∀ b ∈ x.blocks, b.2 = 0) ∨ ¬ x.Completes cb onData memory tmSec input := by
  unfold Right
  by_cases hcomplete : x.Completes cb onData memory tmSec input
  · obtain ⟨s', heq, hdata⟩ := complete hcomplete hcb
    rw [heq, hdata, sent_eq_file_iff]
    simp [hcomplete]
  · refine iff_of_true (.inl fun hnone => hcomplete (sound harr hcb hnone)) (.inr hcomplete)

/-- Callbacks that accept everything. -/
def acceptAll : RymCallbacks := ⟨none, some fun _ _ => rymCodeAck, true⟩

/-- A file of one block, which is sent `again` times more. -/
def oneBlock (again : ℕ) : RymSending := ⟨.null, 0, [(.null, again)]⟩

theorem arrives_bytes (x : RymSending) : Arrives (x.bytes.map some) x.bytes :=
  ⟨[], by rw [reduceOption_bytes, append_nil]⟩

theorem completes_bytes (x : RymSending) :
    x.Completes acceptAll (fun _ _ => rymCodeAck) true 1 (x.bytes.map some) := by
  have hok : ∀ before ds, Accepted (fun _ _ => rymCodeAck) before ds := by
    intro before ds
    induction ds generalizing before with
    | nil => trivial
    | cons d ds ih =>
      have hack : rymCodeAck ≠ rymCodeCan := by decide
      exact ⟨hack, ih _⟩
  refine ⟨rfl, ⟨0, Nat.one_pos, x.bytes.map some, rfl, [], ?_⟩, fun f hf => ?_, hok _ _⟩
  · rw [append_nil]
  · cases hf

/-- The block is sent once. -/
theorem right_once :
    (oneBlock 0).Right (rymDoRecv acceptAll true 1 ((oneBlock 0).bytes.map some)) :=
  ((oneBlock 0).right_iff acceptAll _ rfl true 1 _ (arrives_bytes _)).2
    (.inl fun b hb => by rw [mem_singleton.1 hb])

/-- The acknowledgement of the only block is lost, and it is sent again: it is handed over twice. -/
theorem not_right : ¬ ∀ (x : RymSending) (input : List (Option UInt8)), Arrives input x.bytes →
    x.Right (rymDoRecv acceptAll true 1 input) := by
  intro hall
  obtain ⟨s', heq, hdata⟩ := complete (completes_bytes (oneBlock 1)) rfl
  rcases hall (oneBlock 1) _ (arrives_bytes _) with herr | hright
  · rw [heq] at herr
    exact herr rfl
  · rw [heq, hdata] at hright
    cases (sent_eq_file_iff _).1 hright _ mem_cons_self

end RymSending

end RtThread
