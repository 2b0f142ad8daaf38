import Aletheia.EpochWal

/-!
# A commit that waits for room in its ring

A commit places its entries under `commit_membership`, which the flusher needs to drain a ring. A
batch that fits in its ring when the commit takes the lock is placed without a wait; any other can
come to stand before a full ring that no flush cycle may drain.
-/

namespace Aletheia.EpochWal

open Option

/-- A commit holds the lock, and its ring has no room for its next entry. -/
def Stalled (s : EpochWal) : Prop :=
  ∃ b ∈ s.batch, b.placed < b.size ∧ ∃ ring ∈ s.stripes[b.stripe]?, s.stripeCapacity ≤ ring.length

/-- Some continuation registers the batch. -/
def Completable (s : EpochWal) (b : Batch) : Prop :=
  ∃ actions s', Machine.run step s actions = some s' ∧
    ∃ epoch, ⟨epoch, b.firstLsn, b.size⟩ ∈ s'.registered

/-- A batch is begun only when it fits in what is free of its ring. -/
def Fits (s : EpochWal) : Action → Prop
  | .begin stripe size => ∀ ring ∈ s.stripes[stripe]?, ring.length + size ≤ s.stripeCapacity
  | _ => True

/-- The ring of the batch has room for the entries that are left. -/
def HasRoom (s : EpochWal) : Prop :=
  ∀ b ∈ s.batch, b.placed ≤ b.size ∧
    ∃ ring ∈ s.stripes[b.stripe]?, ring.length + (b.size - b.placed) ≤ s.stripeCapacity

variable {s s' : EpochWal} {a : Action} {b : Batch}

lemma HasRoom.not_stalled (h : s.HasRoom) : ¬ s.Stalled := by
  rintro ⟨b, hb, hlt, ring, hring, hfull⟩
  obtain ⟨-, ring', hring', hroom⟩ := h b hb
  cases hring.symm.trans hring'
  omega

lemma HasRoom.of_batch_none (h : s.batch = none) : s.HasRoom := by
  intro b hb
  rw [h] at hb
  cases hb

lemma HasRoom.empty_set (h : s.HasRoom) (k : ℕ) (hbatch : s'.batch = s.batch)
    (hcapacity : s'.stripeCapacity = s.stripeCapacity) (hset : s'.stripes = s.stripes.set k []) :
    s'.HasRoom := by
  intro b hb
  obtain ⟨hle, ring, hring, hroom⟩ := h b (hbatch ▸ hb)
  rw [hcapacity, hset]
  refine ⟨hle, ?_⟩
  by_cases hk : k = b.stripe
  · have hlt := (List.getElem?_eq_some_iff.mp hring).1
    refine ⟨[], by simp [hk, hlt], ?_⟩
    simp only [List.length_nil]
    omega
  · exact ⟨ring, by rwa [List.getElem?_set_ne hk], hroom⟩

lemma HasRoom.begin {stripe size : ℕ} (hfits : s.Fits (.begin stripe size))
    (hs : s.begin stripe size = some s') : s'.HasRoom := by
  unfold EpochWal.begin at hs
  split at hs <;> try cases hs
  split_ifs at hs with hlt
  cases hs
  rintro b ⟨⟩
  exact ⟨Nat.zero_le _, _, List.getElem?_eq_getElem hlt, hfits _ (List.getElem?_eq_getElem hlt)⟩

lemma HasRoom.append (h : s.HasRoom) (hb : s.batch = some b) (hlt : b.placed < b.size) :
    ∃ s', s.append = some s' ∧ s'.batch = some { b with placed := b.placed + 1 } ∧ s'.HasRoom := by
  obtain ⟨-, ring, hring, hroom⟩ := h b hb
  have henabled : b.placed < b.size ∧ ring.length < s.stripeCapacity := ⟨hlt, by omega⟩
  rw [mem_def] at hring
  simp only [EpochWal.append, hb, hring, bind_eq_bind, bind_some, if_pos henabled]
  refine ⟨_, rfl, rfl, ?_⟩
  rintro _ ⟨⟩
  refine ⟨hlt, ring ++ [_], List.getElem?_set_self (List.getElem?_eq_some_iff.mp hring).1, ?_⟩
  rw [List.length_append, List.length_singleton]
  dsimp only
  omega

lemma hasRoom_step (h : s.HasRoom) (hfits : s.Fits a) (hs : s.step a = some s') : s'.HasRoom := by
  cases a with
  | begin stripe size => exact HasRoom.begin hfits hs
  | append =>
    have hs : s.append = some s' := hs
    have henabled := hs
    simp only [EpochWal.append, bind_eq_bind, bind_eq_some_iff, ite_none_right_eq_some] at henabled
    obtain ⟨b, hb, ring, -, ⟨hlt, -⟩, -⟩ := henabled
    obtain ⟨s₁, hs₁, -, hroom⟩ := h.append hb hlt
    cases hs.symm.trans hs₁
    exact hroom
  | giveUp =>
    simp only [step, ite_none_right_eq_some] at hs
    cases hs.2
    exact .of_batch_none rfl
  | register accepted =>
    obtain ⟨b, -, hs⟩ := bind_eq_some_iff.mp hs
    split_ifs at hs <;> cases hs <;> exact .of_batch_none rfl
  | drainStripe | callerDrains =>
    simp only [step, EpochWal.drainStripe, EpochWal.callerDrains] at hs
    split at hs <;> try cases hs
    split at hs <;> cases hs
    · exact h.empty_set _ rfl rfl rfl
    · exact h
  | flushEntries result =>
    simp only [step, EpochWal.flushEntries] at hs
    split at hs <;> try cases hs
    split_ifs at hs <;> split at hs <;> cases hs <;> exact h
  -- neither the batch nor a ring changes
  | startCycle | retryFinish | lockMembership | openEpoch | finish | callFlush | callerFlushes =>
    simp only [step, EpochWal.retryFinish, EpochWal.lockMembership, EpochWal.openEpoch,
      EpochWal.finish, EpochWal.callerFlushes] at hs
    repeat' split at hs
    all_goals cases hs <;> exact h

/-- A batch with room is placed entry by entry, and then registers. -/
lemma HasRoom.completable (h : s.HasRoom) (hb : s.batch = some b) : s.Completable b := by
  induction hleft : b.size - b.placed generalizing s b with
  | zero =>
    have hplaced : b.placed = b.size := by
      have := (h b hb).1
      omega
    have hs : s.step (.register true) = some { s with
        batch := none
        groupCommit := s.groupCommit.registerTransaction
        registered := s.registered ++ [⟨s.groupCommit.currentEpoch, b.firstLsn, b.size⟩] } := by
      simp [step, EpochWal.register, hb, hplaced]
    exact ⟨[.register true], _, by rw [Machine.run, hs]; rfl, _,
      List.mem_append_right _ (List.mem_singleton_self _)⟩
  | succ left ih =>
    obtain ⟨s₁, hs₁, hb₁, hroom⟩ := h.append hb (by omega)
    obtain ⟨actions, s', hrun, hregistered⟩ := ih hroom hb₁ (by dsimp only; omega)
    exact ⟨.append :: actions, s', bind_eq_some_iff.mpr ⟨s₁, hs₁, hrun⟩, hregistered⟩

/-- **No commit stalls, and each can be completed**, as long as every batch fits in its ring when its
commit takes the lock. -/
theorem no_commit_stalls (recentErrorsCapacity stripeCount stripeCapacity : ℕ)
    (actions : List Action)
    (hfits : Machine.Along step Fits (init recentErrorsCapacity stripeCount stripeCapacity) actions)
    (hrun : Machine.run step (init recentErrorsCapacity stripeCount stripeCapacity) actions = some s) :
    ¬ s.Stalled ∧ ∀ b ∈ s.batch, s.Completable b := by
  have h : s.HasRoom := Machine.invariant_run (fun _ _ _ => hasRoom_step)
    (HasRoom.of_batch_none rfl) hfits hrun
  exact ⟨h.not_stalled, fun b hb => h.completable hb⟩

/-- A batch of two on a ring of two, with the first entry placed. -/
theorem no_commit_stalls_two : ∃ s,
    Machine.run step (init 1 1 2) [.begin 0 2, .append, .startCycle] = some s ∧
      ¬ s.Stalled ∧ ∀ b ∈ s.batch, s.Completable b := by
  refine ⟨_, rfl, no_commit_stalls 1 1 2 [.begin 0 2, .append, .startCycle] ?_ rfl⟩
  exact ⟨by rintro ring ⟨⟩; decide, trivial, trivial, trivial⟩

/-- A batch of three on a ring of two: the commit waits for room with the lock, and the flusher for
the lock. -/
theorem commit_stalls : ∃ s,
    Machine.run step (init 1 1 2) [.begin 0 3, .append, .append, .startCycle] = some s ∧
      s.Stalled ∧ s.step .append = none ∧ s.step .lockMembership = none :=
  ⟨_, rfl, ⟨_, rfl, by decide, _, rfl, by decide⟩, rfl, rfl⟩

end Aletheia.EpochWal
