import Aletheia.ConflictCheck
import Aletheia.CommitControl

/-!
# First committer wins

`detect_conflicts` compares the current entries with the snapshot before the commit clock is locked,
and the comparison is not repeated under the lock. What it saw is what the transaction overwrites as
long as no other commit of the same entity is applied between the check and the apply, and as long
as the entries it looked at carry their commit timestamps.
-/

namespace Aletheia

open Option

namespace System

variable {s s' : System}

/-- The transaction `t` has a write of `r` in its buffer. -/
def Writes (t : Thread) (r : EntityRef) : Prop := ∃ w ∈ t.tx.buffer, w.ref = r

/-- **First committer wins**: of two committed transactions that overwrite the same entity, the
later one has a snapshot that is not earlier than the commit of the first. -/
def FirstCommitterWins (s : System) : Prop :=
  ∀ i j ti tj ci cj r, i ≠ j → s.At i ti → s.At j tj → ti.phase = .committed ci →
    tj.phase = .committed cj → ti.tx.overwrites r → tj.tx.overwrites r →
    ci ≤ cj → ci ≤ tj.tx.snapshotTimestamp

/-- The steps without a race. At a conflict check the entries of the overwritten entities carry a
commit timestamp; and no transaction applies a write of an entity that another one overwrites which
is past its conflict check and not yet applied. -/
def Unraced (s : System) : Action → Prop
  | .detectConflicts i => ∀ t ∈ s.threads[i]?, ∀ w ∈ t.tx.buffer, t.tx.overwrites w.ref →
      ∀ m ∈ s.db.metadata w.ref, m.commitTimestamp ≠ none
  | .applyChanges i => ∀ t ∈ s.threads[i]?, ∀ j < s.threads.length, ∀ t' ∈ s.threads[j]?, j ≠ i →
      t'.phase.inWindow → ∀ w ∈ t.tx.buffer, t'.tx.overwrites w.ref = false
  | _ => True

instance (s : System) : DecidablePred (Unraced s)
  | .detectConflicts _ | .applyChanges _ => inferInstanceAs (Decidable (∀ _ ∈ _, _))
  | .begin _ _ | .buffer _ _ _ | .rollback _ | .validate _ | .checkConstraints _ | .lock _
  | .advanceWith _ _ | .guards _ | .logOperations _ _ | .finalize _ | .publishApplied _
  | .release _ | .finish _ _ => isTrue trivial

/-! ### The invariant -/

/-- No entry of the entity is older than `c`. -/
def Newer (db : Db) (r : EntityRef) (c : Timestamp) : Prop :=
  ∀ m t, db.metadata r = some m → m.commitTimestamp = some t → c ≤ t

/-- What the check of thread `j` has established for an entity that it overwrites: the commits of
the entity are not later than its snapshot; or the entity is gone and the apply will fail. -/
def Checked (s : System) (j : ℕ) (t : Thread) (r : EntityRef) : Prop :=
  (∀ i t₁ c₁, i ≠ j → s.At i t₁ → t₁.phase.appliedAt = some c₁ → Writes t₁ r →
      c₁ ≤ t.tx.snapshotTimestamp) ∨
    s.db.metadata r = none ∧ ∀ w ∈ t.tx.buffer, w.ref = r → w.isClosing = true

/-- The applied writes and what the checks have seen of them. -/
structure Inv (s : System) : Prop extends Control s where
  newer : ∀ i t c r, s.At i t → t.phase.appliedAt = some c → Writes t r → Newer s.db r c
  window : ∀ j t r, s.At j t → t.phase.inWindow → t.tx.overwrites r → s.Checked j t r
  wins : ∀ i j ti tj ci cj r, i ≠ j → s.At i ti → s.At j tj → ti.phase.appliedAt = some ci →
    tj.phase.appliedAt = some cj → Writes ti r → tj.tx.overwrites r → ci ≤ cj →
    ci ≤ tj.tx.snapshotTimestamp

lemma Inv.firstCommitterWins (h : Inv s) : s.FirstCommitterWins := by
  intro i j ti tj ci cj r hne hi hj hci hcj hri hrj hle
  refine h.wins i j ti tj ci cj r hne hi hj ?_ ?_ (WriteTransaction.overwrites_iff.mp hri).1 hrj hle
  · rw [hci, Phase.appliedAt]
  · rw [hcj, Phase.appliedAt]

/-! ### One thread moves -/

section Move

variable {i : ℕ} {t t' : Thread} {c : Timestamp}

lemma Inv.move (h : Inv s) (hat : s.At i t) (hset : s'.threads = s.threads.set i t')
    (hcontrol : Control s') (hmeta : ∀ r, s'.db.metadata r = s.db.metadata r)
    (htx : t'.tx = t.tx ∨ t'.phase.appliedAt = none ∧ t'.phase.inWindow = false)
    (happlied : ∀ c, t'.phase.appliedAt = some c → t.phase.appliedAt = some c)
    (hwindow : t'.phase.inWindow → t.phase.inWindow ∨ ∀ r, t.tx.overwrites r → s.Checked i t r) :
    Inv s' := by
  have happ : ∀ j u c, s'.At j u → u.phase.appliedAt = some c →
      ∃ u', s.At j u' ∧ u'.tx = u.tx ∧ u'.phase.appliedAt = some c := by
    intro j u c hu hc
    rcases at_of_set hset hu with ⟨rfl, rfl⟩ | ⟨_, hu⟩
    · rcases htx with htx | htx
      · exact ⟨t, hat, htx.symm, happlied c hc⟩
      · rw [htx.1] at hc
        cases hc
    · exact ⟨u, hu, rfl, hc⟩
  refine { hcontrol with newer := ?_, window := ?_, wins := ?_ }
  · intro j u c r hu hc hw m t₁ hm
    obtain ⟨u', hu', htx', hc'⟩ := happ j u c hu hc
    rw [hmeta] at hm
    exact h.newer j u' c r hu' hc' (by rwa [Writes, htx']) m t₁ hm
  · intro j u r hu hin hr
    have hold : ∃ u', u'.tx = u.tx ∧ s.Checked j u' r := by
      rcases at_of_set hset hu with ⟨rfl, rfl⟩ | ⟨_, hu⟩
      · rcases htx with htx | htx
        · rw [htx] at hr
          rcases hwindow hin with hin | hchecked
          · exact ⟨t, htx.symm, h.window j t r hat hin hr⟩
          · exact ⟨t, htx.symm, hchecked r hr⟩
        · rw [htx.2] at hin
          cases hin
      · exact ⟨u, rfl, h.window j u r hu hin hr⟩
    obtain ⟨u', htx', hchecked⟩ := hold
    rw [Checked, hmeta]
    rw [Checked, htx'] at hchecked
    refine hchecked.imp_left fun hold k v d hne hv hd hw => ?_
    obtain ⟨v', hv', htxv, hd'⟩ := happ k v d hv hd
    exact hold k v' d hne hv' hd' (by rwa [Writes, htxv])
  · intro j k u v c d r hne hu hv hc hd hw hr hle
    obtain ⟨u', hu', htxu, hc'⟩ := happ j u c hu hc
    obtain ⟨v', hv', htxv, hd'⟩ := happ k v d hv hd
    rw [← htxv]
    exact h.wins j k u' v' c d r hne hu' hv' hc' hd' (by rwa [Writes, htxu]) (by rwa [htxv]) hle

/-! ### The stores change -/

lemma Newer.touched {db db' : Db} {txId : TxId} {r : EntityRef} (h : Newer db r c)
    (ht : Db.Touched txId r db db') : Newer db' r c := by
  intro m t₁ hm hc
  rcases ht with heq | heq | heq
  · exact h m t₁ (heq ▸ hm) hc
  · cases heq.symm.trans hm
    cases hc
  · cases heq.symm.trans hm

lemma Inv.apply (h : Inv s) (hat : s.At i t) (hphase : t.phase = .logged c)
    (hset : s'.threads = s.threads.set i t') (hcontrol : Control s') (htx : t'.tx = t.tx)
    (hdb : s'.db = Exec.after (Db.applyChanges t.tx.txId c t.tx.buffer t.closingIds) s.db)
    (hunraced : s.Unraced (.applyChanges i))
    (hout : t'.phase = .failed ∨ t'.phase = .applied c ∧
      (Db.applyChanges t.tx.txId c t.tx.buffer t.closingIds).run s.db = .ok () s'.db) : Inv s' := by
  have hwin : t'.phase.inWindow = false := by
    rcases hout with hp | ⟨hp, _⟩ <;> rw [hp] <;> rfl
  have hown : ∀ d, t'.phase.appliedAt = some d → d = c ∧
      (Db.applyChanges t.tx.txId c t.tx.buffer t.closingIds).run s.db = .ok () s'.db := by
    intro d hd
    rcases hout with hp | ⟨hp, hrun⟩
    · rw [hp] at hd
      cases hd
    · rw [hp] at hd
      exact ⟨(some.inj hd).symm, hrun⟩
  refine { hcontrol with newer := ?_, window := ?_, wins := ?_ }
  · intro j u d r hu hd hw
    rcases at_of_set hset hu with ⟨rfl, rfl⟩ | ⟨_, hu⟩
    · -- what was just written is pending or gone
      obtain ⟨_, hrun⟩ := hown d hd
      rw [Writes, htx] at hw
      intro m t₁ hm hc
      rcases Db.metadata_of_applyChanges hrun hw with heq | heq
      · cases heq.symm.trans hm
        cases hc
      · cases heq.symm.trans hm
    · rw [hdb]
      exact (h.newer j u d r hu hd hw).touched Db.touched_after_applyChanges
  · intro j u r hu hin hr
    rcases at_of_set hset hu with ⟨rfl, rfl⟩ | ⟨hne, hu⟩
    · rw [hwin] at hin
      cases hin
    · have hnot : ∀ w ∈ t.tx.buffer, w.ref ≠ r := by
        rintro w hw rfl
        have hlt : j < s.threads.length := (List.getElem?_eq_some_iff.mp hu).1
        rw [hunraced t hat j hlt u hu hne hin w hw] at hr
        cases hr
      rcases h.window j u r hu hin hr with hold | ⟨hnone, hclosing⟩
      · refine .inl fun k v d hkne hv hd hw => ?_
        rcases at_of_set hset hv with ⟨rfl, rfl⟩ | ⟨_, hv⟩
        · obtain ⟨w, hw, hwr⟩ := hw
          rw [htx] at hw
          exact absurd hwr (hnot w hw)
        · exact hold k v d hkne hv hd hw
      · exact .inr ⟨by rw [hdb, Db.metadata_after_applyChanges hnot, hnone], hclosing⟩
  · intro j k u v d e r hne hu hv hd he hw hr hle
    rcases at_of_set hset hu with ⟨rfl, rfl⟩ | ⟨hjne, hu⟩ <;>
      rcases at_of_set hset hv with ⟨rfl, rfl⟩ | ⟨hkne, hv⟩
    · exact absurd rfl hne
    · -- every commit applied before has a smaller timestamp
      obtain ⟨rfl, _⟩ := hown d hd
      exact absurd hle (not_le.mpr (h.latest k j v t e d hne.symm hv hat he
        (by rw [hphase, Phase.stampedAt])))
    · obtain ⟨_, hrun⟩ := hown e he
      rw [htx] at hr ⊢
      rcases h.window k t r hat (by rw [hphase, Phase.inWindow]) hr with hold | ⟨hnone, hclosing⟩
      · exact hold j u d hne hu hd hw
      · exact absurd hnone (Db.present_of_applyChanges hrun
          (WriteTransaction.overwrites_iff.mp hr).1 hclosing)
    · exact h.wins j k u v d e r hne hu hv hd he hw hr hle

lemma Inv.finalize (h : Inv s) (hat : s.At i t) (hphase : t.phase = .applied c)
    (hset : s'.threads = s.threads.set i { t with phase := .finalized c }) (hcontrol : Control s')
    (hdb : s'.db = s.db.finalize c t.tx.buffer) : Inv s' := by
  have happ : ∀ j u d, s'.At j u → u.phase.appliedAt = some d →
      ∃ u', s.At j u' ∧ u'.tx = u.tx ∧ u'.phase.appliedAt = some d := by
    intro j u d hu hd
    rcases at_of_set hset hu with ⟨rfl, rfl⟩ | ⟨_, hu⟩
    · exact ⟨t, hat, rfl, by rw [hphase]; exact hd⟩
    · exact ⟨u, hu, rfl, hd⟩
  refine { hcontrol with newer := ?_, window := ?_, wins := ?_ }
  · intro j u d r hu hd hw m t₁ hm hc
    obtain ⟨u', hu', htx', hd'⟩ := happ j u d hu hd
    rw [hdb, Db.metadata_finalize] at hm
    split at hm
    · -- the new timestamp is the latest
      obtain ⟨m', _, rfl⟩ := map_eq_some_iff.mp hm
      cases hc
      by_cases hji : j = i
      · subst hji
        cases hat.symm.trans hu'
        rw [hphase] at hd'
        exact (some.inj hd').symm.le
      · exact (h.latest j i u' t d c hji hu' hat hd' (by rw [hphase, Phase.stampedAt])).le
    · exact h.newer j u' d r hu' hd' (by rwa [Writes, htx']) m t₁ hm hc
  · intro j u r hu hin hr
    rcases at_of_set hset hu with ⟨rfl, rfl⟩ | ⟨hne, hu⟩
    · cases hin
    · rcases h.window j u r hu hin hr with hold | ⟨hnone, hclosing⟩
      · refine .inl fun k v d hkne hv hd hw => ?_
        obtain ⟨v', hv', htxv, hd'⟩ := happ k v d hv hd
        exact hold k v' d hkne hv' hd' (by rwa [Writes, htxv])
      · refine .inr ⟨?_, hclosing⟩
        rw [hdb, Db.metadata_finalize, hnone]
        simp
  · intro j k u v d e r hne hu hv hd he hw hr hle
    obtain ⟨u', hu', htxu, hd'⟩ := happ j u d hu hd
    obtain ⟨v', hv', htxv, he'⟩ := happ k v e hv he
    rw [← htxv]
    exact h.wins j k u' v' d e r hne hu' hv' hd' he' (by rwa [Writes, htxu]) (by rwa [htxv]) hle

/-! ### The steps -/

/-- The check of thread `i` sees every commit that is applied, if the entries have timestamps. -/
lemma Inv.checked (h : Inv s) (hat : s.At i t) (hunraced : s.Unraced (.detectConflicts i))
    (hok : t.tx.detectConflicts s.db = .ok ()) {r : EntityRef} (hr : t.tx.overwrites r) :
    s.Checked i t r := by
  obtain ⟨hfresh, hgone⟩ := WriteTransaction.of_detectConflicts hok hr
  rcases hm : s.db.metadata r with _ | m
  · exact .inr ⟨hm, hgone hm⟩
  · left
    intro j u c hne hu hc hw
    obtain ⟨⟨w, hw', rfl⟩, _⟩ := WriteTransaction.overwrites_iff.mp hr
    obtain ⟨d, hd⟩ := ne_none_iff_exists'.mp (hunraced t hat w hw' hr m hm)
    exact (h.newer j u c w.ref hu hc hw m d hm hd).trans (hfresh m d hm hd)

lemma inv_stepThread {a : Action} (h : Inv s) (hat : s.At i t) (ha : a.thread = some i)
    (hunraced : s.Unraced a) (hstep : s.stepThread i t a = some s') : Inv s' := by
  obtain ⟨t', hmoves, heffect⟩ := stepThread_cases hat (h.lock i t hat) hstep
  have hcontrol := h.toControl.move hat hmoves
  cases heffect with
  | quiet hq =>
    exact h.move hat hmoves.threads hcontrol hq.metadata hq.tx hq.applied fun hin =>
      .inl (hq.window hin)
  | check hdb ht hok =>
    cases ha
    subst ht
    refine h.move hat hmoves.threads hcontrol (fun _ => by rw [hdb]) (.inl rfl) (by simp) fun _ => ?_
    exact .inr fun r hr => h.checked hat hunraced hok hr
  | apply hphase htx hdb hout =>
    cases ha
    exact h.apply hat hphase hmoves.threads hcontrol htx hdb hunraced hout
  | finalize hphase ht hdb => exact h.finalize hat hphase (ht ▸ hmoves.threads) hcontrol hdb

end Move

lemma inv_start (db : Db) (registry : ConstraintRegistry) (frontier : Timestamp) :
    Inv (start db registry frontier) where
  toControl := control_start db registry frontier
  newer _ _ _ _ h := by cases h
  window _ _ _ h := by cases h
  wins _ _ _ _ _ _ _ _ h := by cases h

lemma Inv.begin {t : Thread} (h : Inv s) (hphase : t.phase = .active)
    (hthreads : s'.threads = s.threads ++ [t]) (hdb : s'.db = s.db) (hlock : s'.lock = s.lock)
    (hfrontier : s.frontier ≤ s'.frontier) : Inv s' := by
  have happ := fun j u c => at_of_begin_applied hphase hthreads (j := j) (u := u) (c := c)
  refine ⟨control_begin hphase hthreads h.toControl hlock hfrontier, ?_, ?_, ?_⟩
  · intro j u c r hu hc hw
    rw [hdb]
    exact h.newer j u c r (happ j u c hu hc) hc hw
  · intro j u r hu hin hr
    have hu' : s.At j u := by
      refine at_of_begin hphase hthreads hu fun hp => ?_
      rw [hp] at hin
      cases hin
    rw [Checked, hdb]
    exact (h.window j u r hu' hin hr).imp_left fun hchecked k v d hne hv hd hw =>
      hchecked k v d hne (happ k v d hv hd) hd hw
  · exact fun j k u v c d r hne hu hv hc hd hw hr hle =>
      h.wins j k u v c d r hne (happ j u c hu hc) (happ k v d hv hd) hc hd hw hr hle

lemma inv_step {a : Action} (h : Inv s) (hunraced : s.Unraced a) (hstep : s.step a = some s') :
    Inv s' := by
  rcases ha : a.thread with _ | i
  · cases a with
    | begin snapshot startTime =>
      simp only [step, ha, ite_none_right_eq_some, some.injEq] at hstep
      obtain ⟨hallowed, rfl⟩ := hstep
      exact h.begin rfl rfl rfl rfl (frontier_le_of_begin hallowed)
    | _ => cases ha
  · obtain ⟨t, hat, hstep⟩ := of_step ha hstep
    exact inv_stepThread h hat ha hunraced hstep

/-- **First committer wins** in every run without a race between the check of one transaction and
the apply of another. -/
theorem first_committer_wins (db : Db) (registry : ConstraintRegistry) (frontier : Timestamp)
    (acts : List Action) (s : System)
    (hunraced : Machine.Along step Unraced (start db registry frontier) acts)
    (hrun : Machine.run step (start db registry frontier) acts = some s) :
    s.FirstCommitterWins :=
  (Machine.invariant_run (fun _ _ _ h hp hs => inv_step h hp hs) (inv_start db registry frontier)
    hunraced hrun).firstCommitterWins

lemma control_step {a : Action} (h : Control s) (hstep : s.step a = some s') : Control s' := by
  rcases ha : a.thread with _ | i
  · cases a with
    | begin snapshot startTime =>
      simp only [step, ha, ite_none_right_eq_some, some.injEq] at hstep
      obtain ⟨hallowed, rfl⟩ := hstep
      exact control_begin rfl rfl h rfl (frontier_le_of_begin hallowed)
    | _ => cases ha
  · obtain ⟨t, hat, hstep⟩ := of_step ha hstep
    obtain ⟨t', hmoves, -⟩ := stepThread_cases hat (h.lock i t hat) hstep
    exact h.move hat hmoves

/-- **Commits are serialized**, raced or not. -/
theorem control_run {db : Db} {registry : ConstraintRegistry} {frontier : Timestamp}
    {acts : List Action} (hrun : Machine.run step (start db registry frontier) acts = some s) :
    Control s :=
  Machine.invariant_run (fun _ _ _ h _ => control_step h) (control_start _ _ _)
    (Machine.along_of_forall fun _ _ => trivial) hrun

/-! ### A lost update -/

/-- Thread 0 creates node 0; threads 1 and 2 both read it and update it. -/
def twoUpdates : List Action :=
  [Action.begin ⟨1, 0⟩ (.ofWallclock 1), .buffer 0 (.node (.create ⟨0, ∅, (), none⟩ none)) ⟨1, 0⟩] ++
    commitSteps 0 ⟨2, 0⟩ ++
    [Action.begin ⟨3, 0⟩ (.ofWallclock 3), .begin ⟨3, 0⟩ (.ofWallclock 3),
      .buffer 1 (.node (.update ⟨0⟩ ∅ none none)) ⟨3, 0⟩,
      .buffer 2 (.node (.update ⟨0⟩ ∅ none none)) ⟨3, 0⟩]

/-- Thread 2 passes its conflict check, thread 1 commits, thread 2 goes on and commits. -/
def racedCommits : List Action :=
  twoUpdates ++ (commitSteps 2 ⟨5, 0⟩).take 2 ++ commitSteps 1 ⟨4, 0⟩ ++
    (commitSteps 2 ⟨5, 0⟩).drop 2

/-- The phase and the snapshot of a thread, and whether it overwrites node 0. -/
def outcome (s : System) (i : ℕ) : Option (Phase × Timestamp × Bool) :=
  (s.threads[i]?).map fun t => (t.phase, t.tx.snapshotTimestamp, t.tx.overwrites (.node ⟨0⟩))

lemma of_outcome {i : ℕ} {phase : Phase} {snapshot : Timestamp} {b : Bool}
    (h : s.outcome i = some (phase, snapshot, b)) : ∃ t, s.At i t ∧ t.phase = phase ∧
      t.tx.snapshotTimestamp = snapshot ∧ t.tx.overwrites (.node ⟨0⟩) = b := by
  obtain ⟨t, hat, heq⟩ := map_eq_some_iff.mp h
  simp only [Prod.mk.injEq] at heq
  exact ⟨t, hat, heq⟩

theorem first_committer_loses :
    ∃ s, Machine.run step (start (.init 1000 (some 1000000) []) ⟨[], ∅, []⟩ ⟨0, 0⟩) racedCommits =
      some s ∧ ¬ s.FirstCommitterWins := by
  have heval : (Machine.run step (start (.init 1000 (some 1000000) []) ⟨[], ∅, []⟩ ⟨0, 0⟩)
      racedCommits).map (fun s => (s.outcome 1, s.outcome 2)) =
      some (some (.committed ⟨4, 0⟩, ⟨3, 0⟩, true), some (.committed ⟨5, 0⟩, ⟨3, 0⟩, true)) := by
    decide +kernel
  obtain ⟨s, hrun, hout⟩ := map_eq_some_iff.mp heval
  simp only [Prod.mk.injEq] at hout
  obtain ⟨t₁, hat₁, hphase₁, -, hr₁⟩ := of_outcome hout.1
  obtain ⟨t₂, hat₂, hphase₂, hsnap₂, hr₂⟩ := of_outcome hout.2
  refine ⟨s, hrun, fun hwins => ?_⟩
  have hle := hwins 1 2 t₁ t₂ ⟨4, 0⟩ ⟨5, 0⟩ (.node ⟨0⟩) (by decide) hat₁ hat₂ hphase₁ hphase₂ hr₁ hr₂
    (by decide)
  rw [hsnap₂] at hle
  exact absurd hle (by decide)

theorem control_run_raced :
    ∃ s, Machine.run step (start (.init 1000 none []) ⟨[], ∅, []⟩ ⟨0, 0⟩) racedCommits = some s ∧
      Control s := by
  have heval : (Machine.run step (start (.init 1000 none []) ⟨[], ∅, []⟩ ⟨0, 0⟩)
      racedCommits).isSome = true := by
    decide +kernel
  obtain ⟨s, hrun⟩ := isSome_iff_exists.mp heval
  exact ⟨s, hrun, control_run hrun⟩

/-- One after the other, the second update starts after the first commit. -/
def orderedCommits : List Action :=
  twoUpdates.take 14 ++
    [Action.begin ⟨3, 0⟩ (.ofWallclock 3), .buffer 1 (.node (.update ⟨0⟩ ∅ none none)) ⟨3, 0⟩] ++
    commitSteps 1 ⟨4, 0⟩ ++
    [Action.begin ⟨5, 0⟩ (.ofWallclock 5), .buffer 2 (.node (.update ⟨0⟩ ∅ none none)) ⟨5, 0⟩] ++
    commitSteps 2 ⟨6, 0⟩

theorem first_committer_wins_ordered :
    ∃ s, Machine.run step (start (.init 1000 (some 1000000) []) ⟨[], ∅, []⟩ ⟨0, 0⟩) orderedCommits =
      some s ∧ s.outcome 1 = some (.committed ⟨4, 0⟩, ⟨3, 0⟩, true) ∧
      s.outcome 2 = some (.committed ⟨6, 0⟩, ⟨5, 0⟩, true) ∧ s.FirstCommitterWins := by
  have heval : (Machine.run step (start (.init 1000 (some 1000000) []) ⟨[], ∅, []⟩ ⟨0, 0⟩)
      orderedCommits).map (fun s => (s.outcome 1, s.outcome 2)) =
      some (some (.committed ⟨4, 0⟩, ⟨3, 0⟩, true), some (.committed ⟨6, 0⟩, ⟨5, 0⟩, true)) := by
    decide +kernel
  obtain ⟨s, hrun, hout⟩ := map_eq_some_iff.mp heval
  simp only [Prod.mk.injEq] at hout
  exact ⟨s, hrun, hout.1, hout.2, first_committer_wins (.init 1000 (some 1000000) []) ⟨[], ∅, []⟩
    ⟨0, 0⟩ orderedCommits s (by decide +kernel) hrun⟩

end System

end Aletheia
