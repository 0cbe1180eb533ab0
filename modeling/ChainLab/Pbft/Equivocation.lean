import ChainLab.Block.Digest
import ChainLab.Pbft.Locks

/-!
# One vote per slot

A replica equivocates when OnPrePrepare returns Prepare votes for two blocks of one view and
sequence.  The slot lock rules this out for as long as it stands.  `markDurableCommit` deletes the
locks at or below the committed height without moving the low watermark, so a slot can be voted a
second time after it.  A replica keeps to one vote when proposals come only for heights above those
that have been made durable.
-/

namespace ChainLab.Pbft

open GoMap

section Votes

variable (hash : BlockCore → String) (start : State) (calls : List Call)

/-- The vote that call number `i` returns, if it is a successful OnPrePrepare. -/
def voteAt (i : Nat) : Option Prepare :=
  match calls[i]? with
  | some (.onPrePrepare msg) =>
    ((callState hash start calls i).onPrePrepare hash msg).toOption.map Prod.snd
  | _ => none

/-- No two votes of the run name different blocks of one view and sequence. -/
def NeverEquivocates : Prop :=
  ∀ i j p q, voteAt hash start calls i = some p → voteAt hash start calls j = some q →
    p.view = q.view → p.sequence = q.sequence → p.blockHash = q.blockHash

/-- Whenever OnPrePrepare is called with a proposal of the current view above the low watermark, the
proposal is above every height that has been made durable. -/
def ProposalsAboveDurable : Prop :=
  ∀ k j b msg, k < j → calls[k]? = some (.markDurableCommit b) → b.blockHash ≠ "" →
    calls[j]? = some (.onPrePrepare msg) → msg.view = (callState hash start calls j).viewID →
    (callState hash start calls j).lowWatermark < msg.height → b.height < msg.height

end Votes

variable {hash : BlockCore → String} {start s : State} {calls : List Call}

lemma voteAt_eq_some {i : Nat} {p : Prepare} (h : voteAt hash start calls i = some p) :
    ∃ msg, calls[i]? = some (.onPrePrepare msg) ∧
      ValidPrePrepare hash (callState hash start calls i) msg ∧ p.view = msg.view ∧
      p.sequence = msg.sequence ∧ p.height = msg.height ∧ p.blockHash = msg.blockHash := by
  unfold voteAt at h
  split at h
  · rename_i msg hcall
    cases hok : (callState hash start calls i).onPrePrepare hash msg with
    | error e => simp [hok, Except.toOption] at h
    | ok out =>
      obtain ⟨hval, -, hp⟩ := onPrePrepare_eq_ok.1 hok
      simp only [hok, Except.toOption, Option.map_some, Option.some.injEq] at h
      subst h
      exact ⟨msg, hcall, hval, by simp [hp], by simp [hp], by simp [hp], by simp [hp]⟩
  · cases h

/-! ## A lock outlives every call that does not release it -/

/-- The slot is locked to `h`, and the block behind the lock is the one `h` digests. -/
structure Locked (hash : BlockCore → String) (view height : Nat) (h : String) (s : State) :
    Prop where
  slot : s.prePrepareBySlot.find (slotKey view height) = some h
  block : ∃ b, s.lockedBlocks.find h = some b ∧ b.blockHash = h ∧ b.height = height ∧
    hash b.toBlockCore = h

/-- The replica can no longer vote for another block of the slot: its view is past, a stable
checkpoint covers it, or it is locked. -/
def Bound (hash : BlockCore → String) (view height : Nat) (h : String) (s : State) : Prop :=
  view < s.viewID ∨ view = s.viewID ∧ (height ≤ s.lowWatermark ∨ Locked hash view height h s)

variable {msg : PrePrepare} {h : String} {height view : Nat}

lemma locked_lockPrePrepare (h : ValidPrePrepare hash s msg) :
    Locked hash msg.view msg.height msg.blockHash (s.lockPrePrepare msg) where
  slot := by simp [State.lockPrePrepare, State.replayEarlyVotes, h.sequence_eq]
  block := ⟨msg.block, by simp [State.lockPrePrepare, State.replayEarlyVotes], h.block_hash,
    h.block_height, h.digest⟩

lemma Locked.lockPrePrepare (hinj : Function.Injective hash) (hne : h ≠ "")
    (hlock : Locked hash view height h s) (hval : ValidPrePrepare hash s msg) :
    Locked hash view height h (s.lockPrePrepare msg) := by
  by_cases hslot : slotKey view height = slotKey msg.view msg.sequence
  · -- the slot's own lock: the check against it makes the two hashes equal
    have hget : s.prePrepareBySlot.get (slotKey msg.view msg.sequence) = h := by
      rw [← hslot]
      exact get_of_find hlock.slot
    have hsame : h = msg.blockHash := by
      rcases hval.lock with hemp | heq
      · exact absurd (hget ▸ hemp) hne
      · exact hget ▸ heq
    simp only [slotKey, Prod.mk.injEq] at hslot
    obtain ⟨rfl, hseq⟩ := hslot
    rw [hseq, hval.sequence_eq, hsame]
    exact locked_lockPrePrepare hval
  · refine ⟨?_, ?_⟩
    · simpa [State.lockPrePrepare, State.replayEarlyVotes, find_put, hslot] using hlock.slot
    obtain ⟨b, hfind, hhash, hht, hdig⟩ := hlock.block
    by_cases heq : h = msg.blockHash
    · -- the same digest again: no collision, so the block has the same height
      have hcore : msg.block.toBlockCore = b.toBlockCore := hinj (by rw [hval.digest, hdig, heq])
      refine ⟨msg.block, ?_, ?_, ?_, ?_⟩
      · simp [State.lockPrePrepare, State.replayEarlyVotes, heq]
      · rw [hval.block_hash, heq]
      · simpa [hcore] using hht
      · rw [hval.digest, heq]
    · refine ⟨b, ?_, hhash, hht, hdig⟩
      simpa [State.lockPrePrepare, State.replayEarlyVotes, find_put, heq] using hfind

lemma Locked.retain {limit : Nat} (hlock : Locked hash view height h s) (hlimit : limit < height)
    (hne : h ≠ "") :
    s.slotReleased limit (slotKey view height) = false ∧
      s.slotPruned limit (slotKey view height) = false ∧ s.hashReleased limit h = false := by
  obtain ⟨b, hfind, hhash, hht, -⟩ := hlock.block
  have hget : s.lockedBlocks.get h = b := get_of_find hfind
  have hreleased : s.hashReleased limit h = false := by
    simp [State.hashReleased, hfind, hht, hlimit]
  refine ⟨?_, ?_, hreleased⟩
  · simp [State.slotReleased, hlock.slot, hget, hht, hlimit]
  · simp [State.slotPruned, hlock.slot, hget, hreleased, hht, hlimit, hhash, hne]

lemma bound_call (hinj : Function.Injective hash) (hne : h ≠ "")
    (hwater : s.lowWatermark = s.stableCheckpoint.height) {c : Call}
    (hrelease : ∀ b, c = .markDurableCommit b → b.blockHash ≠ "" → b.height < height)
    (hbound : Bound hash view height h s) : Bound hash view height h (s.call hash c) := by
  rcases hbound with hpast | ⟨hnow, hclosed⟩
  · -- views never go back
    refine .inl (hpast.trans_le ?_)
    rcases (callChange_call hash s c).locks with
      ⟨-, -, -, -, hview⟩ | ⟨msg, -, hs⟩ | ⟨hview, -, -⟩ | ⟨_, -, hview, -⟩ | ⟨_, -, -, hview, -⟩
    · exact hview
    · exact (congrArg State.viewID hs).ge
    · exact hview.le
    · exact hview.ge
    · exact hview.ge
  · rcases (callChange_call hash s c).locks with
      ⟨hslots, hblks, hlow, -, hview⟩ | ⟨msg, hval, hs⟩ | ⟨hview, -, -⟩ |
      ⟨limit, hlimit, hview, hlow, -, hslots, hblks⟩ |
      ⟨b, hcall, hhash, hview, hlow, -, hslots, hblks⟩
    · rcases hview.lt_or_eq with hlt | heq
      · exact .inl (hnow ▸ hlt)
      refine .inr ⟨hnow.trans heq, ?_⟩
      rcases hclosed with hcov | hlock
      · exact .inl (hlow ▸ hcov)
      · exact .inr ⟨hslots ▸ hlock.slot, hblks ▸ hlock.block⟩
    · rw [hs]
      refine .inr ⟨hnow, ?_⟩
      rcases hclosed with hcov | hlock
      · exact .inl hcov
      · exact .inr (hlock.lockPrePrepare hinj hne hval)
    · exact .inl (hnow ▸ hview)
    · -- a stable checkpoint either covers the slot or leaves its lock alone
      refine .inr ⟨hnow.trans hview.symm, ?_⟩
      rcases Nat.lt_or_ge limit height with hlt | hge
      · rcases hclosed with hcov | hlock
        · omega
        obtain ⟨-, hslot, hrel⟩ := hlock.retain hlt hne
        refine .inr ⟨?_, ?_⟩
        · rw [hslots, find_retain_eq_some]
          exact ⟨hlock.slot, by simp [hslot]⟩
        · obtain ⟨b, hfind, hb⟩ := hlock.block
          refine ⟨b, ?_, hb⟩
          rw [hblks, find_retain_eq_some]
          exact ⟨hfind, by simp [hrel]⟩
      · exact .inl (hlow ▸ hge)
    · refine .inr ⟨hnow.trans hview.symm, ?_⟩
      rcases hclosed with hcov | hlock
      · exact .inl (hlow ▸ hcov)
      obtain ⟨hslot, -, hrel⟩ := hlock.retain (hrelease b hcall hhash) hne
      refine .inr ⟨?_, ?_⟩
      · rw [hslots, find_retain_eq_some]
        exact ⟨hlock.slot, by simp [hslot]⟩
      · obtain ⟨b', hfind, hb⟩ := hlock.block
        refine ⟨b', ?_, hb⟩
        rw [hblks, find_retain_eq_some]
        exact ⟨hfind, by simp [hrel]⟩

lemma lowWatermark_call (h : s.lowWatermark = s.stableCheckpoint.height) (c : Call) :
    (s.call hash c).lowWatermark = (s.call hash c).stableCheckpoint.height := by
  rcases (callChange_call hash s c).locks with
    ⟨-, -, hlow, hstable, -⟩ | ⟨msg, -, hs⟩ | ⟨-, hlow, hstable⟩ | ⟨_, -, -, hlow, hstable, -⟩ |
    ⟨_, -, -, -, hlow, hstable, -⟩
  · rw [hlow, hstable, h]
  · rw [hs]
    exact h
  · rw [hlow, hstable, h]
  · rw [hlow, hstable]
  · rw [hlow, hstable, h]

lemma Bound.hash_eq (hne : h ≠ "") (hbound : Bound hash view height h s)
    (hval : ValidPrePrepare hash s msg) (hview : msg.view = view) (hht : msg.height = height) :
    h = msg.blockHash := by
  rcases hbound with hpast | ⟨-, hcov | hlock⟩
  · have := hval.view_eq
    omega
  · have hwater := hval.inWatermarks
    simp only [State.inWatermarks, Bool.and_eq_true, decide_eq_true_eq] at hwater
    omega
  · have hget : s.prePrepareBySlot.get (slotKey msg.view msg.sequence) = h := by
      rw [hval.sequence_eq, hview, hht]
      exact get_of_find hlock.slot
    rcases hval.lock with hemp | heq
    · exact absurd (hget ▸ hemp) hne
    · exact hget ▸ heq

/-! ## Runs -/

lemma vote_eq_of_no_release (hinj : Function.Injective hash)
    (hstart : start.lowWatermark = start.stableCheckpoint.height) {i j : Nat} (hij : i < j)
    {p q : Prepare} (hp : voteAt hash start calls i = some p)
    (hq : voteAt hash start calls j = some q) (hview : p.view = q.view)
    (hseq : p.sequence = q.sequence)
    (hrelease : ∀ k b, i < k → k < j → calls[k]? = some (.markDurableCommit b) →
      b.blockHash ≠ "" → b.height < p.height) : p.blockHash = q.blockHash := by
  obtain ⟨msg, hcall, hval, hpv, hps, hph, hpb⟩ := voteAt_eq_some hp
  obtain ⟨msg', -, hval', hqv, hqs, hqh, hqb⟩ := voteAt_eq_some hq
  have hne : p.blockHash ≠ "" := hpb ▸ hval.hash_ne
  -- right after the vote the slot is locked
  have hfirst : Bound hash p.view p.height p.blockHash (callState hash start calls (i + 1)) := by
    have hstep : callState hash start calls (i + 1) =
        (callState hash start calls i).lockPrePrepare msg := by
      rw [callState, Run.stateAt_succ hcall]
      simp only [State.call, stateOr, onPrePrepare_eq_ok.2 ⟨hval, rfl, rfl⟩]
    rw [hstep, hpv, hph, hpb]
    exact .inr ⟨hval.view_eq, .inr (locked_lockPrePrepare hval)⟩
  have hwater : ∀ k, (callState hash start calls k).lowWatermark =
      (callState hash start calls k).stableCheckpoint.height := by
    intro k
    exact Run.run_induction (P := fun s : State => s.lowWatermark = s.stableCheckpoint.height)
      hstart (fun _ c h => lowWatermark_call h c) k
  have hlater : Bound hash p.view p.height p.blockHash (callState hash start calls j) := by
    refine Run.stretch_induction hij hfirst ?_
    intro k c hik hkj hc hbound
    refine bound_call hinj hne (hwater k) ?_ hbound
    rintro b rfl hhash
    exact hrelease k b hik hkj hc hhash
  rw [hqb]
  refine hlater.hash_eq hne hval' (by rw [← hqv, hview]) ?_
  have := hval.sequence_eq
  have := hval'.sequence_eq
  omega

/-- A replica does not equivocate in the runs where proposals come for heights above the durable
ones. -/
theorem neverEquivocates_of_proposalsAboveDurable (hinj : Function.Injective hash)
    (nodeID leaderID : String) (validators : List String) (calls : List Call)
    (habove : ProposalsAboveDurable hash (State.new nodeID leaderID validators) calls) :
    NeverEquivocates hash (State.new nodeID leaderID validators) calls := by
  have hlt : ∀ i j p q, i < j → voteAt hash (State.new nodeID leaderID validators) calls i =
      some p →
      voteAt hash (State.new nodeID leaderID validators) calls j = some q →
      p.view = q.view → p.sequence = q.sequence → p.blockHash = q.blockHash := by
    intro i j p q hij hp hq hview hseq
    refine vote_eq_of_no_release hinj rfl hij hp hq hview hseq fun k b _ hkj hcall hhash => ?_
    obtain ⟨msg, -, hval, -, hps, hph, -⟩ := voteAt_eq_some hp
    obtain ⟨msg', hcall', hval', -, hqs, -⟩ := voteAt_eq_some hq
    have hwater := hval'.inWatermarks
    simp only [State.inWatermarks, Bool.and_eq_true, decide_eq_true_eq] at hwater
    have hbelow := habove k j b msg' hkj hcall hhash hcall' hval'.view_eq hwater.1
    have := hval.sequence_eq
    have := hval'.sequence_eq
    omega
  intro i j p q hp hq hview hseq
  rcases Nat.lt_trichotomy i j with hij | rfl | hji
  · exact hlt i j p q hij hp hq hview hseq
  · cases hp.symm.trans hq
    rfl
  · exact (hlt j i q p hji hq hp hview.symm hseq.symm).symm

/-- Two heights are voted for, each before it is made durable; the second proposal comes twice. -/
def durableRun : List Call :=
  [.onPrePrepare (.ofBlock 0 "a" (plainBlock 1 "a")), .markDurableCommit (plainBlock 1 "a"),
    .onPrePrepare (.ofBlock 0 "a" (plainBlock 2 "a")),
      .onPrePrepare (.ofBlock 0 "a" (plainBlock 2 "b"))]

lemma proposalsAboveDurable_durableRun :
    ProposalsAboveDurable plainDigest (State.new "b" "a" ["a", "b", "c", "d"]) durableRun := by
  intro k j b msg hkj hk _ hj _ _
  have hlt := (List.getElem?_eq_some_iff.1 hj).1
  simp only [durableRun, List.length_cons, List.length_nil] at hlt
  -- the durable commit is call number one, and the proposals after it are for height 2
  match k, j with
  | 1, 2 | 1, 3 => cases hk; cases hj; decide
  | 0, _ | 2, 3 => cases hk
  | 1, 0 | 1, 1 | _ + 2, 0 | _ + 2, 1 | _ + 2, 2 | _ + 3, 3 | 1, _ + 4 | _ + 2, _ + 4 => omega

theorem neverEquivocates_durableRun :
    NeverEquivocates plainDigest (State.new "b" "a" ["a", "b", "c", "d"]) durableRun :=
  neverEquivocates_of_proposalsAboveDurable plainDigest_injective "b" "a" ["a", "b", "c",
    "d"] durableRun
    proposalsAboveDurable_durableRun

/-! ## A replica that votes twice -/

def releasedRun : List Call :=
  [.onPrePrepare (.ofBlock 0 "a" (plainBlock 1 "a")), .markDurableCommit (plainBlock 1 "a"),
    .onPrePrepare (.ofBlock 0 "a" (plainBlock 1 "b"))]

/-- The durable commit deletes the lock and leaves the watermark, so the slot is voted again. -/
theorem equivocates_after_markDurableCommit :
    ¬ NeverEquivocates plainDigest (State.new "b" "a" ["a", "b", "c", "d"]) releasedRun := by
  intro hnever
  have hfirst : voteAt plainDigest (State.new "b" "a" ["a", "b", "c", "d"]) releasedRun 0 =
      some ⟨0, 1, 1, "b", (plainBlock 1 "a").blockHash⟩ := by
    decide
  have hsecond : voteAt plainDigest (State.new "b" "a" ["a", "b", "c", "d"]) releasedRun 2 =
      some ⟨0, 1, 1, "b", (plainBlock 1 "b").blockHash⟩ := by
    decide
  have hsame := hnever 0 2 _ _ hfirst hsecond rfl rfl
  exact absurd hsame (by decide)

end ChainLab.Pbft
