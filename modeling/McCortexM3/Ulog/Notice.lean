import McCortexM3.Ulog.Async

/-!
# Notices of log lines

The output thread must not wait for `async_notice` while a complete block is in `async_rbb` and
nobody is about to release the semaphore: the line would stay there until something else is logged.
This happens when the block is put and its notice is released after the thread has found no block,
and before it resets the semaphore.

## Main definitions

* `Ulog.Stranded` — the output thread waits, and should not.
* `Ulog.Noticed` — no notice of a complete block is lost.
* `Ulog.HandsOut` — the output thread is not stranded, and all lines are handed over in the end.

## Main results

* `Ulog.run_handsOut` — so it is in every run in which no notice is lost.
* `Ulog.run_laid` — the blocks in use are apart, so that each frame keeps its line.
-/

set_option linter.all false

namespace RtThread

open List

namespace Ulog

/-- A release of `async_notice` is to be taken, or still to come. -/
def Pending (s : Ulog) : Prop := 0 < s.asyncNotice ∨ .noticing ∈ s.calls

/-- The output thread waits, with a complete block and no release pending. -/
def Stranded (s : Ulog) : Prop :=
  s.thread = .waiting ∧ complete s.asyncRbb ≠ [] ∧ ¬ s.Pending

/-- No notice is lost: `async_notice` is reset when the release for a complete block is still to
come, and does not wrap around when it is about to be taken. -/
def Noticed (s : Ulog) : UlogAction → Prop
  | .thread => s.thread = .resetting → complete s.asyncRbb ≠ [] → .noticing ∈ s.calls
  | .release _ => s.thread = .taking → s.asyncNotice ≠ 65535
  | _ => True

instance (s : Ulog) (a : UlogAction) : Decidable (s.Noticed a) := by
  cases a <;> unfold Noticed <;> infer_instance

/-- **The output thread is not stranded.**  Without a new log call there is an end to all steps, and
when there is none left, every accepted line has been handed over. -/
structure HandsOut (tr : List UlogEvent) (s : Ulog) : Prop where
  not_stranded : ¬ s.Stranded
  ends : ∃ n, ∀ as s' out, (∀ a ∈ as, ∀ line, a ≠ .log line) →
    exec step (fun _ _ => True) s as = some (s', out) → as.length ≤ n
  handed : (∀ a, (∀ line, a ≠ .log line) → s.step a = none) →
    (acceptedLines tr).Perm (handedLines tr)

variable {s s' : Ulog} {a : UlogAction} {tr out : List UlogEvent}

/-- When the output thread is about to take `async_notice`, or waits for it, a release is pending
if there is a complete block. -/
def Expecting (s : Ulog) : Prop :=
  s.thread = .taking ∨ s.thread = .waiting → complete s.asyncRbb ≠ [] → s.Pending

theorem expecting_step (h : Blocks s) (he : s.Expecting) (hc : s.Noticed a)
    (hs : s.step a = some (s', out)) : s'.Expecting := by
  cases outcome_of_step hs with
  | dropped line => exact he
  | accepted line i p hnew halloc =>
    have hnot : i ∉ s.asyncRbb.blkList := fun hi => ((h.mem_list i).1 hi).2 hnew.2
    intro ht hne
    rw [complete_place hnot] at hne
    rcases he ht hne with hn | hmem
    · exact .inl hn
    · exact .inr (mem_append_left _ hmem)
  | put k i line hk hst =>
    -- the call has the notice to send
    intro _ _
    exact .inr (((calls_perm hk).2 .noticing).mem_iff.2 mem_cons_self)
  | resumed k hk ht => rintro (hc | hc) <;> cases hc
  | counted k hk ht =>
    rintro (hta | hwait)
    · intro _
      have hlt := s.asyncNotice.toNat_lt
      have hne : s.asyncNotice.toNat ≠ 65535 := fun heq => hc hta (UInt16.toNat_inj.1 heq)
      refine .inl (UInt16.lt_iff_toNat_lt.2 ?_)
      rw [UInt16.toNat_add]
      show 0 < (s.asyncNotice.toNat + 1) % 65536
      omega
    · exact absurd hwait ht
  | reset ht => exact fun _ hne => .inr (hc ht hne)
  | taken ht hn => rintro (hc | hc) <;> cases hc
  | waits ht hn =>
    intro _ hne
    rcases he (.inl ht) hne with hpos | hmem
    · exact absurd hpos hn
    · exact .inr hmem
  | got i ht hi => rintro (hc | hc) <;> cases hc
  | empty ht hnil => rintro (hc | hc) <;> cases hc
  | handed i ht => rintro (hc | hc) <;> cases hc
  | freed i ht => rintro (hc | hc) <;> cases hc

/-! ### The end of all steps -/

theorem length_le_remaining {as : List UlogAction} (h : Blocks s)
    (has : ∀ a ∈ as, ∀ line, a ≠ .log line)
    (he : exec step (fun _ _ => True) s as = some (s', out)) : as.length ≤ s.remaining := by
  induction as generalizing s s' out with
  | nil => exact Nat.zero_le _
  | cons a as ih =>
    rw [exec, if_pos trivial] at he
    cases hs : s.step a with
    | none => simp [hs] at he
    | some r =>
      obtain ⟨s₁, out₁⟩ := r
      rw [hs] at he
      obtain ⟨⟨s₂, out₂⟩, hrest, -⟩ := Option.map_eq_some_iff.1 he
      have hlt := remaining_step h (has a mem_cons_self) hs
      have hle := ih (blocks_step h hs) (fun b hb => has b (mem_cons_of_mem _ hb)) hrest
      rw [length_cons]
      omega

theorem waiting_of_stuck (h : Blocks s)
    (hstuck : ∀ a, (∀ line, a ≠ .log line) → s.step a = none) :
    s.calls = [] ∧ s.thread = .waiting := by
  constructor
  · cases hcalls : s.calls with
    | nil => rfl
    | cons c calls =>
      cases c with
      | filling i line =>
        have hk : s.calls[0]? = some (OutputCall.filling i line) := by simp [hcalls]
        have hst := ((h.filled i).1 ((filled_put hk).mem_iff.2 mem_cons_self)).2
        have hnone := hstuck (.put 0) (by simp)
        simp [step, hk, Rbb.rtRbbBlkPut, hst] at hnone
      | noticing =>
        have hnone := hstuck (.release 0) (by simp)
        simp [step, hcalls] at hnone
  · have hnone := hstuck .thread (by simp)
    simp only [step, asyncStep] at hnone
    split at hnone
    · cases hnone
    · split at hnone <;> cases hnone
    · assumption
    · split at hnone <;> cases hnone
    · cases hnone
    · next i ht =>
      have hgot : s.thread.block = some i := by rw [ht]; rfl
      have hst := ((h.got i).1 hgot).2
      simp [Rbb.rtRbbBlkFree, hst] at hnone

/-! ### The runs -/

theorem asyncNotice_step (h : s.thread = .waiting → s.asyncNotice = 0)
    (hs : s.step a = some (s', out)) : s'.thread = .waiting → s'.asyncNotice = 0 := by
  cases outcome_of_step hs with
  | dropped | accepted | put => exact h
  | counted k hk ht => exact fun hwait => absurd hwait ht
  | waits ht hn =>
    intro _
    refine UInt16.toNat_inj.1 (Nat.eq_zero_of_not_pos fun hpos => hn ?_)
    exact UInt16.lt_iff_toNat_lt.2 hpos
  | _ => exact nofun

/-- What holds in every run in which no notice is lost. -/
structure Kept (tr : List UlogEvent) (s : Ulog) : Prop where
  blocks : Blocks s
  lines : (acceptedLines tr).Perm (handedLines tr ++ s.inHand)
  expecting : s.Expecting
  zero : s.thread = .waiting → s.asyncNotice = 0

theorem kept_step (h : Kept tr s) (hc : s.Noticed a) (hs : s.step a = some (s', out)) :
    Kept (tr ++ out) s' := by
  refine ⟨blocks_step h.blocks hs, ?_, expecting_step h.blocks h.expecting hc hs,
    asyncNotice_step h.zero hs⟩
  have haccepted : acceptedLines (tr ++ out) = acceptedLines tr ++ acceptedLines out :=
    filterMap_append
  have hhanded : handedLines (tr ++ out) = handedLines tr ++ handedLines out :=
    filterMap_append
  rw [haccepted, hhanded, append_assoc]
  refine (h.lines.append_right _).trans ?_
  rw [append_assoc]
  exact (inHand_step h.blocks hs).append_left _

theorem Kept.handsOut (h : Kept tr s) : HandsOut tr s := by
  have hnot : ¬ s.Stranded := fun ⟨ht, hne, hpending⟩ => hpending (h.expecting (.inr ht) hne)
  refine ⟨hnot, ⟨s.remaining, fun as s' out has he => length_le_remaining h.blocks has he⟩,
    fun hstuck => ?_⟩
  obtain ⟨hcalls, ht⟩ := waiting_of_stuck h.blocks hstuck
  -- a complete block would have a release pending
  have hnil : complete s.asyncRbb = [] := by
    by_contra hne
    rcases h.expecting (.inr ht) hne with hpos | hmem
    · rw [h.zero ht] at hpos
      exact absurd hpos (by decide)
    · rw [hcalls] at hmem
      exact absurd hmem not_mem_nil
  have hhand : s.inHand = [] := by
    rw [inHand, completeLines, hnil, hcalls, ht]
    rfl
  have hlines := h.lines
  rwa [hhand, append_nil] at hlines

/-- **The output thread is not stranded**, and every accepted line is handed over, in every run in
which no notice is lost. -/
theorem run_handsOut (buf bufSize : UInt32) (blockSet : ℕ → RbbBlk) (blkMaxNum : ℕ)
    (frame : ℕ → UlogFrame) (tr : List UlogEvent) (s : Ulog)
    (h : Run step Noticed (ulogInit buf bufSize blockSet blkMaxNum frame) tr s) :
    HandsOut tr s := by
  refine (h.invariant Kept ⟨blocks_ulogInit .., .refl _, ?_, nofun⟩ kept_step).handsOut
  rintro (hc | hc) <;> cases hc

/-- A line. -/
def hello : UlogLine := ⟨7, 0x8000, false, [104, 101, 108, 108, 111], by decide⟩

/-- The output thread waits, and a line is put; the thread goes on before the notice is released,
hands the line over, and resets the semaphore when the notice of the next line is still to come. -/
def notices : List UlogAction :=
  [.thread, .thread, .log hello, .put 0, .release 0, .log hello, .put 0, .thread, .thread, .thread,
    .thread, .thread, .thread, .thread, .release 0]

theorem run_handsOut_twoLines :
    ∃ (tr : List UlogEvent) (s : Ulog), HandsOut tr s ∧ acceptedLines tr = [hello, hello] ∧
      handedLines tr = [hello, hello] := by
  have hsome : (exec step Noticed (ulogInit 0x4000 2048 (fun _ => ⟨.unused, 0, 0⟩) 16
      fun _ => ⟨0, hello⟩) notices).any fun r =>
        acceptedLines r.2 = [hello, hello] ∧ handedLines r.2 = [hello, hello] := by
    decide +kernel
  obtain ⟨s, tr, hrun, haccepted, hhanded⟩ := Run.of_any hsome
  exact ⟨tr, s, run_handsOut 0x4000 2048 (fun _ => ⟨.unused, 0, 0⟩) 16 (fun _ => ⟨0, hello⟩) tr s
    hrun, haccepted, hhanded⟩

/-- A line is logged after the output thread has found no block, and before it resets the
semaphore. -/
def lostNotice : List UlogAction :=
  [.thread, .thread, .log hello, .put 0, .release 0, .thread, .thread, .thread, .thread,
    .log hello, .put 0, .release 0, .thread, .thread]

theorem not_run_handsOut :
    ¬ ∀ (buf bufSize : UInt32) (blockSet : ℕ → RbbBlk) (blkMaxNum : ℕ) (frame : ℕ → UlogFrame)
      (tr : List UlogEvent) (s : Ulog)
      (_ : Run step (fun _ _ => True) (ulogInit buf bufSize blockSet blkMaxNum frame) tr s),
      HandsOut tr s := by
  intro hall
  have hsome : (exec step (fun _ _ => True) (ulogInit 0x4000 2048 (fun _ => ⟨.unused, 0, 0⟩) 16
      fun _ => ⟨0, hello⟩) lostNotice).any fun r =>
        r.1.thread = .waiting ∧ complete r.1.asyncRbb = [0] ∧ r.1.asyncNotice = 0 ∧
          r.1.calls = [] := by
    decide +kernel
  obtain ⟨s, tr, hrun, ht, hcomplete, hzero, hcalls⟩ := Run.of_any hsome
  refine (hall _ _ _ _ _ tr s hrun).not_stranded ⟨ht, ?_, ?_⟩
  · rw [hcomplete]
    exact nofun
  · rintro (hpos | hmem)
    · rw [hzero] at hpos
      exact absurd hpos (by decide)
    · rw [hcalls] at hmem
      exact absurd hmem not_mem_nil

/-! ### The blocks in memory -/

/-- A new line fits in the buffer. -/
def Fits (s : Ulog) : UlogAction → Prop
  | .log line => line.blkSize ≤ s.asyncRbb.bufSize
  | _ => True

instance (s : Ulog) (a : UlogAction) : Decidable (s.Fits a) := by
  unfold Fits
  split <;> infer_instance

theorem toNat_blkSize (line : UlogLine) : line.blkSize ≠ 0 ∧ line.blkSize < 2 ^ 24 := by
  have hlen := line.log_lt
  have hsum : (16 + UInt32.ofNat line.log.length).toNat = 16 + line.log.length := by
    rw [UInt32.toNat_add, UInt32.toNat_ofNat]
    show (16 + line.log.length % 4294967296) % 4294967296 = _
    omega
  have hround : line.blkSize.toNat = (16 + line.log.length + 3) / 4 * 4 := by
    rw [UlogLine.blkSize, toNat_rtAlign (by omega), hsum]
  constructor
  · intro hzero
    rw [hzero] at hround
    have hround : 0 = (16 + line.log.length + 3) / 4 * 4 := hround
    omega
  · rw [UInt32.lt_iff_toNat_lt, hround]
    show _ < 16777216
    omega

theorem laid_step {held : List ℕ} (h : Blocks s) (hl : s.asyncRbb.Laid [] held) (hc : s.Fits a)
    (hs : s.step a = some (s', out)) : ∃ held', s'.asyncRbb.Laid [] held' := by
  cases outcome_of_step hs with
  | dropped | resumed | counted | reset | taken | waits | empty | handed => exact ⟨held, hl⟩
  | accepted line i p hnew halloc =>
    obtain ⟨hne, hlt⟩ := toNat_blkSize line
    have hroom : RbbSys.HasRoom ⟨s.asyncRbb, []⟩ line.blkSize := by
      rw [RbbSys.HasRoom]
      split
      · exact ⟨fun x hx => absurd hx not_mem_nil, fun hzero => absurd hzero hne⟩
      · exact ⟨rfl, hc⟩
    have hstep : RbbSys.step ⟨s.asyncRbb, []⟩ (.alloc line.blkSize) =
        some (⟨s.asyncRbb.place i p line.blkSize, []⟩, [.allocated i]) := by
      rw [RbbSys.step, if_pos hlt, halloc]
      rfl
    have hroomy : RbbSys.Roomy ⟨s.asyncRbb, []⟩ (.alloc line.blkSize) := fun _ => hroom
    exact ⟨_, RbbSys.laid_step hl hroomy hstep⟩
  | put k i line hk hst =>
    have hi := ((h.filled i).1 ((filled_put hk).mem_iff.2 mem_cons_self)).1
    exact ⟨held, hl.setStatus ((hl.split i).2 (.inl hi)) (by simp)⟩
  | got i ht hi =>
    have hi := (mem_complete.1 hi).1
    exact ⟨held, hl.setStatus ((hl.split i).2 (.inl hi)) (by simp)⟩
  | freed i ht =>
    have hgot : s.thread.block = some i := by rw [ht]; rfl
    have hst := ((h.got i).1 hgot).2
    have hfree : s.asyncRbb.rtRbbBlkFree i =
        some ((s.asyncRbb.rtSlistRemove i).setStatus i .unused) := by
      rw [Rbb.rtRbbBlkFree, if_pos (by simp [hst])]
    exact ⟨_, hl.free (.refl _) (fun j => by simp) hfree⟩

/-- **The blocks in use are apart** and inside the buffer, as long as every line fits in it: nobody
else writes into the frame of a line. -/
theorem run_laid {buf bufSize : UInt32} {blockSet : ℕ → RbbBlk} {n : ℕ} {frame : ℕ → UlogFrame}
    (hregion : buf.toNat + bufSize.toNat < 2 ^ 32)
    (h : Run step Fits (ulogInit buf bufSize blockSet n frame) tr s) :
    ∃ held, s.asyncRbb.Laid [] held := by
  refine (h.invariant (fun _ s => Blocks s ∧ ∃ held, s.asyncRbb.Laid [] held)
    ⟨blocks_ulogInit .., [], Rbb.laid_rtRbbInit blockSet n hregion⟩ ?_).2
  rintro tr s a s' out ⟨hb, held, hl⟩ hc hs
  exact ⟨blocks_step hb hs, laid_step hb hl hc hs⟩

/-- A third line takes the block of the first one. -/
theorem run_laid_threeLines :
    ∃ s : Ulog, s.asyncRbb.blkList = [1, 0] ∧ ∃ held, s.asyncRbb.Laid [] held := by
  have hsome : (exec step Fits (ulogInit 0x4000 2048 (fun _ => ⟨.unused, 0, 0⟩) 16
      fun _ => ⟨0, hello⟩) (notices.take 12 ++ [UlogAction.log hello])).any fun r =>
        r.1.asyncRbb.blkList = [1, 0] := by
    decide +kernel
  obtain ⟨s, tr, hrun, hlist⟩ := Run.of_any hsome
  exact ⟨s, hlist, run_laid (by decide) hrun⟩

end Ulog

end RtThread
