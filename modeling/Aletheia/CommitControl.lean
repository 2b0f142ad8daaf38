import Aletheia.System

/-!
# The lock and the commit timestamps

Which phases a transaction holds the lock in and which ones its writes are applied in. The
transaction that holds the lock has the largest commit timestamp.
-/

namespace Aletheia

open Exec List Option

namespace Phase

/-- The commit timestamp of a transaction whose writes are in the stores. -/
@[simp] def appliedAt : Phase → Option Timestamp
  | .applied c | .finalized c | .published c | .released c | .committed c => some c
  | _ => none

/-- The commit timestamp of a transaction that holds the lock. -/
@[simp] def stampedAt : Phase → Option Timestamp
  | .stamped c | .guarded c | .logged c | .applied c | .finalized c | .published c => some c
  | _ => none

@[simp] def holdsLock : Phase → Bool
  | .locked => true
  | p => p.stampedAt.isSome

/-- Between the conflict check and the apply. -/
@[simp] def inWindow : Phase → Bool
  | .checked | .reserved | .locked | .stamped _ | .guarded _ | .logged _ => true
  | _ => false

end Phase

namespace System

variable {s s' : System}

/-- The lock and the commit timestamps. -/
structure Control (s : System) : Prop where
  lock : ∀ i t, s.At i t → t.phase.holdsLock → s.lock = some i
  applied : ∀ i t c, s.At i t → t.phase.appliedAt = some c → c ≤ s.frontier
  stamped : ∀ i t c, s.At i t → t.phase.stampedAt = some c → c ≤ s.frontier
  latest : ∀ i j ti tj ci cj, i ≠ j → s.At i ti → s.At j tj → ti.phase.appliedAt = some ci →
    tj.phase.stampedAt = some cj → ci < cj

section Move

variable {i : ℕ} {t t' : Thread}

lemma at_of_set (hset : s'.threads = s.threads.set i t') {j : ℕ} {u : Thread} (h : s'.At j u) :
    j = i ∧ u = t' ∨ j ≠ i ∧ s.At j u := by
  rw [At, hset, List.getElem?_set] at h
  split at h
  · rename_i hij
    split at h
    · exact .inl ⟨hij.symm, (some.inj h).symm⟩
    · cases h
  · rename_i hij
    exact .inr ⟨Ne.symm hij, h⟩

/-- What a step of thread `i` does to the lock and the timestamps; `t` becomes `t'`. -/
structure Moves (s : System) (i : ℕ) (t : Thread) (s' : System) (t' : Thread) : Prop where
  threads : s'.threads = s.threads.set i t'
  frontier : s.frontier ≤ s'.frontier
  lock : t'.phase.holdsLock → s'.lock = some i
  others : ∀ j ≠ i, s.lock = some j → s'.lock = some j
  applied : ∀ c, t'.phase.appliedAt = some c →
    t.phase.appliedAt = some c ∨ t.phase.stampedAt = some c
  stamped : ∀ c, t'.phase.stampedAt = some c →
    t.phase.stampedAt = some c ∨ s.frontier < c ∧ c ≤ s'.frontier

/-- The step leaves the entries and their timestamps, and the thread is not further than before. -/
structure Quiet (s : System) (t : Thread) (s' : System) (t' : Thread) : Prop where
  metadata : ∀ r, s'.db.metadata r = s.db.metadata r
  tx : t'.tx = t.tx ∨ t'.phase.appliedAt = none ∧ t'.phase.inWindow = false
  applied : ∀ c, t'.phase.appliedAt = some c → t.phase.appliedAt = some c
  window : t'.phase.inWindow → t.phase.inWindow

/-- What a step does to the entries. -/
inductive Effect (s : System) (t : Thread) (s' : System) (t' : Thread) : Action → Prop
  | quiet {a : Action} (h : Quiet s t s' t') : Effect s t s' t' a
  | check {j : ℕ} (hdb : s'.db = s.db) (ht : t' = { t with phase := .checked })
    (hok : t.tx.detectConflicts s.db = .ok ()) : Effect s t s' t' (.detectConflicts j)
  | apply {j : ℕ} {c : Timestamp} (hphase : t.phase = .logged c) (htx : t'.tx = t.tx)
    (hdb : s'.db = Exec.after (Db.applyChanges t.tx.txId c t.tx.buffer t.closingIds) s.db)
    (hout : t'.phase = .failed ∨ t'.phase = .applied c ∧
      (Db.applyChanges t.tx.txId c t.tx.buffer t.closingIds).run s.db = .ok () s'.db) :
    Effect s t s' t' (.applyChanges j)
  | finalize {j : ℕ} {c : Timestamp} (hphase : t.phase = .applied c)
    (ht : t' = { t with phase := .finalized c }) (hdb : s'.db = s.db.finalize c t.tx.buffer) :
    Effect s t s' t' (.finalize j)

lemma Control.move (h : Control s) (hat : s.At i t) (hm : Moves s i t s' t') : Control s' where
  lock j u hu hholds := by
    rcases at_of_set hm.threads hu with ⟨rfl, rfl⟩ | ⟨hne, hu⟩
    · exact hm.lock hholds
    · exact hm.others j hne (h.lock j u hu hholds)
  applied j u c hu hc := by
    rcases at_of_set hm.threads hu with ⟨rfl, rfl⟩ | ⟨hne, hu⟩
    · rcases hm.applied c hc with hc | hc
      · exact (h.applied j t c hat hc).trans hm.frontier
      · exact (h.stamped j t c hat hc).trans hm.frontier
    · exact (h.applied j u c hu hc).trans hm.frontier
  stamped j u c hu hc := by
    rcases at_of_set hm.threads hu with ⟨rfl, rfl⟩ | ⟨hne, hu⟩
    · rcases hm.stamped c hc with hc | ⟨_, hc⟩
      · exact (h.stamped j t c hat hc).trans hm.frontier
      · exact hc
    · exact (h.stamped j u c hu hc).trans hm.frontier
  latest j k u v c d hne hu hv hc hd := by
    rcases at_of_set hm.threads hu with ⟨rfl, rfl⟩ | ⟨hjne, hu⟩ <;>
      rcases at_of_set hm.threads hv with ⟨rfl, rfl⟩ | ⟨hkne, hv⟩
    · exact absurd rfl hne
    · rcases hm.applied c hc with hc | hc
      · exact h.latest j k t v c d hne hat hv hc hd
      · -- both would hold the lock
        have hj := h.lock j t hat (by cases hp : t.phase <;> simp_all [Phase.holdsLock])
        have hk := h.lock k v hv (by cases hp : v.phase <;> simp_all [Phase.holdsLock])
        exact absurd (some.inj (hj.symm.trans hk)) hne
    · rcases hm.stamped d hd with hd | ⟨hd, _⟩
      · exact h.latest j k u t c d hne hu hat hc hd
      · exact (h.applied j u c hu hc).trans_lt hd
    · exact h.latest j k u v c d hne hu hv hc hd

end Move

/-! ### The steps -/

section Steps

variable {i : ℕ} {t t' : Thread}

lemma set_self (hat : s.At i t) : s.threads = s.threads.set i t := by
  obtain ⟨hlt, heq⟩ := List.getElem?_eq_some_iff.mp hat
  rw [← heq, set_getElem_self]

lemma moves_fail (s : System) (i : ℕ) (t : Thread) (db : Db) :
    Moves s i t { s.fail i t with db := db } { t with phase := .failed } := by
  refine ⟨rfl, le_rfl, by simp, fun j hj hlock => ?_, by simp, by simp⟩
  have hne : s.lock ≠ some i := by
    rw [hlock]
    exact fun heq => hj (some.inj heq)
  exact (if_neg hne).trans hlock

lemma metadata_of_stores {db db' : Db} (h : db'.stores = db.stores) (r : EntityRef) :
    db'.metadata r = db.metadata r := by
  simp only [Db.stores, Prod.mk.injEq] at h
  obtain ⟨⟨hn, he⟩, _⟩ := h
  cases r with
  | node id => simp only [Db.metadata, hn]
  | edge id => simp only [Db.metadata, he]

lemma stepThread_cases {a : Action} (hat : s.At i t) (hlock : t.phase.holdsLock → s.lock = some i)
    (hstep : s.stepThread i t a = some s') : ∃ t', Moves s i t s' t' ∧ Effect s t s' t' a := by
  -- a step to another phase that leaves the lock and the frontier
  have hput : ∀ {phase : Phase} {s' : System}, s'.threads = s.threads.set i { t with phase := phase } →
      s'.frontier = s.frontier ∧ s'.lock = s.lock → (phase.holdsLock → t.phase.holdsLock) →
      (∀ c, phase.appliedAt = some c → t.phase.appliedAt = some c ∨ t.phase.stampedAt = some c) →
      (∀ c, phase.stampedAt = some c → t.phase.stampedAt = some c) →
      Moves s i t s' { t with phase := phase } :=
    fun hset hsame hholds happlied hstamped => ⟨hset, hsame.1.ge,
      fun hh => hsame.2.trans (hlock (hholds hh)), fun j _ hj => hsame.2.trans hj, happlied,
      fun c hc => .inl (hstamped c hc)⟩
  -- and the entries too
  have hgo : ∀ {phase : Phase} {s' : System}, s'.threads = s.threads.set i { t with phase := phase } →
      s'.frontier = s.frontier ∧ s'.lock = s.lock → s'.db = s.db →
      (phase.holdsLock → t.phase.holdsLock) ∧ (phase.inWindow → t.phase.inWindow) ∧
        (∀ c, phase.appliedAt = some c → t.phase.appliedAt = some c) ∧
        (∀ c, phase.stampedAt = some c → t.phase.stampedAt = some c) →
      ∃ t', Moves s i t s' t' ∧ Effect s t s' t' a :=
    fun hset hsame hdb ⟨hholds, hwindow, happlied, hstamped⟩ =>
      ⟨_, hput hset hsame hholds (fun c hc => .inl (happlied c hc)) hstamped,
        .quiet ⟨fun _ => by rw [hdb], .inl rfl, happlied, hwindow⟩⟩
  have hfail : ∃ t', Moves s i t (s.fail i t) t' ∧ Effect s t (s.fail i t) t' a :=
    ⟨_, moves_fail s i t s.db, .quiet ⟨fun _ => rfl, .inl rfl, by simp, by simp⟩⟩
  cases a with
  | begin => cases hstep
  | buffer j request now =>
    simp only [stepThread] at hstep
    split at hstep
    · rename_i hphase
      have hkeep := request.keeps_exec t.tx now s.db
      split at hstep <;> cases hstep
      · rename_i tx db hrun
        rw [after_of_ok hrun] at hkeep
        refine ⟨{ t with tx := tx }, ⟨rfl, le_rfl, ?_, fun _ _ => id, ?_, ?_⟩, .quiet
          ⟨metadata_of_stores hkeep, .inr ?_, ?_, ?_⟩⟩ <;> simp [hphase]
      · rename_i e db hrun
        rw [after_of_error hrun] at hkeep
        exact ⟨t, ⟨set_self hat, le_rfl, hlock, fun _ _ => id, fun _ => .inl, fun _ => .inl⟩, .quiet
          ⟨metadata_of_stores hkeep, .inl rfl, fun _ => id, id⟩⟩
    · cases hstep
  | rollback j =>
    simp only [stepThread, ite_none_right_eq_some, some.injEq] at hstep
    obtain ⟨_, rfl⟩ := hstep
    exact hfail
  | validate j =>
    simp only [stepThread, ite_none_right_eq_some, some.injEq] at hstep
    obtain ⟨hphase, rfl⟩ := hstep
    rcases t.tx.validate s.db with _ | _
    · exact hfail
    · exact hgo rfl ⟨rfl, rfl⟩ rfl (by simp)
  | detectConflicts j =>
    simp only [stepThread, ite_none_right_eq_some, some.injEq] at hstep
    obtain ⟨hphase, rfl⟩ := hstep
    rcases hcheck : t.tx.detectConflicts s.db with _ | _
    · exact hfail
    · exact ⟨_, hput rfl ⟨rfl, rfl⟩ (by simp) (by simp) (by simp), .check rfl rfl hcheck⟩
  | checkConstraints j =>
    simp only [stepThread] at hstep
    split at hstep
    · rename_i hphase
      split at hstep <;> cases hstep
      · exact ⟨_, ⟨rfl, le_rfl, by simp, fun _ _ => id, by simp, by simp⟩, .quiet
          ⟨fun _ => rfl, .inl rfl, by simp, by simp [hphase]⟩⟩
      · exact hgo rfl ⟨rfl, rfl⟩ rfl (by simp)
    · cases hstep
  | lock j =>
    simp only [stepThread, ite_none_right_eq_some, some.injEq] at hstep
    obtain ⟨⟨hphase, hfree⟩, rfl⟩ := hstep
    exact ⟨_, ⟨rfl, le_rfl, by simp, by simp [hfree], by simp, by simp⟩, .quiet
      ⟨fun _ => rfl, .inl rfl, by simp, by simp [hphase]⟩⟩
  | advanceWith j commit =>
    cases commit with
    | none =>
      simp only [stepThread, ite_none_right_eq_some, some.injEq] at hstep
      obtain ⟨_, rfl⟩ := hstep
      exact hfail
    | some commit =>
      simp only [stepThread, ite_none_right_eq_some, some.injEq] at hstep
      obtain ⟨⟨hphase, hlt⟩, rfl⟩ := hstep
      have hheld := hlock (by simp [hphase])
      refine ⟨_, ⟨rfl, hlt.le, fun _ => hheld, fun _ _ => id, by simp, ?_⟩, .quiet
        ⟨fun _ => rfl, .inl rfl, by simp, by simp [hphase]⟩⟩
      simp [hlt]
  | guards j =>
    simp only [stepThread] at hstep
    split at hstep
    · rename_i commit hphase
      cases hstep
      rcases t.tx.guards s.db commit with _ | _
      · exact hfail
      · exact hgo rfl ⟨rfl, rfl⟩ rfl (by simp [hphase])
    · cases hstep
  | logOperations j ok =>
    simp only [stepThread] at hstep
    split at hstep
    · rename_i commit hphase
      cases hstep
      split
      · exact hgo rfl ⟨rfl, rfl⟩ rfl (by simp [hphase])
      · exact hfail
    · cases hstep
  | applyChanges j =>
    simp only [stepThread] at hstep
    split at hstep
    · rename_i commit hphase
      split at hstep <;> rename_i hrun <;> cases hstep
      · refine ⟨_, hput rfl ⟨rfl, rfl⟩ ?_ ?_ ?_, .apply hphase rfl (after_of_ok hrun).symm
          (.inr ⟨rfl, hrun⟩)⟩ <;> simp [hphase]
      · exact ⟨_, moves_fail s i t _, .apply hphase rfl (after_of_error hrun).symm (.inl rfl)⟩
    · cases hstep
  | finalize j =>
    simp only [stepThread] at hstep
    split at hstep
    · rename_i commit hphase
      cases hstep
      refine ⟨_, hput rfl ⟨rfl, rfl⟩ ?_ ?_ ?_, .finalize hphase rfl rfl⟩ <;> simp [hphase]
    · cases hstep
  | publishApplied j =>
    simp only [stepThread] at hstep
    split at hstep
    · rename_i commit hphase
      cases hstep
      exact hgo rfl ⟨rfl, rfl⟩ rfl (by simp [hphase])
    · cases hstep
  | release j =>
    simp only [stepThread] at hstep
    split at hstep
    · rename_i commit hphase
      cases hstep
      have hheld := hlock (by simp [hphase])
      refine ⟨_, ⟨rfl, le_rfl, by simp, fun j hj hother => ?_, by simp [hphase], by simp⟩, .quiet
        ⟨fun _ => rfl, .inl rfl, by simp [hphase], by simp⟩⟩
      exact absurd (some.inj (hother.symm.trans hheld)) hj
    · cases hstep
  | finish j ok =>
    simp only [stepThread] at hstep
    split at hstep
    · rename_i commit hphase
      cases hstep
      split
      · exact hgo rfl ⟨rfl, rfl⟩ rfl (by simp [hphase])
      · exact hfail
    · cases hstep

end Steps

variable {t : Thread}

lemma at_of_append (hthreads : s'.threads = s.threads ++ [t]) {j : ℕ} {u : Thread}
    (h : s'.At j u) : s.At j u ∨ u = t := by
  rw [At, hthreads, List.getElem?_append] at h
  split at h
  · exact .inl h
  · exact .inr (mem_singleton.mp (mem_of_getElem? h))

section Begin

variable (hphase : t.phase = .active) (hthreads : s'.threads = s.threads ++ [t]) {j : ℕ} {u : Thread}

include hphase hthreads

lemma at_of_begin (hu : s'.At j u) (hne : u.phase ≠ .active) : s.At j u := by
  rcases at_of_append hthreads hu with hu | rfl
  · exact hu
  · exact absurd hphase hne

lemma at_of_begin_applied {c : Timestamp} (hu : s'.At j u) (hc : u.phase.appliedAt = some c) :
    s.At j u := by
  refine at_of_begin hphase hthreads hu fun hp => ?_
  rw [hp] at hc
  cases hc

lemma control_begin (h : Control s) (hlock : s'.lock = s.lock) (hfrontier : s.frontier ≤ s'.frontier) :
    Control s' := by
  have happ := fun j u c => at_of_begin_applied hphase hthreads (j := j) (u := u) (c := c)
  have hstamp : ∀ j u c, s'.At j u → u.phase.stampedAt = some c → s.At j u := by
    intro j u c hu hc
    refine at_of_begin hphase hthreads hu fun hp => ?_
    rw [hp] at hc
    cases hc
  refine ⟨?_, ?_, ?_, ?_⟩
  · intro j u hu hholds
    rw [hlock]
    refine h.lock j u (at_of_begin hphase hthreads hu fun hp => ?_) hholds
    rw [hp] at hholds
    cases hholds
  · exact fun j u c hu hc => (h.applied j u c (happ j u c hu hc) hc).trans hfrontier
  · exact fun j u c hu hc => (h.stamped j u c (hstamp j u c hu hc) hc).trans hfrontier
  · exact fun j k u v c d hne hu hv hc hd =>
      h.latest j k u v c d hne (happ j u c hu hc) (hstamp k v d hv hd) hc hd

end Begin

lemma frontier_le_of_begin {snapshot : Timestamp} (hallowed : s.allowsSnapshot snapshot = true) :
    s.frontier ≤ snapshot := by
  simp only [allowsSnapshot] at hallowed
  split at hallowed
  · exact (of_decide_eq_true hallowed).ge
  · rcases Bool.or_eq_true_iff.mp hallowed with h | h
    · exact (of_decide_eq_true h).le
    · exact (of_decide_eq_true (Bool.and_eq_true_iff.mp h).2).ge

lemma control_start (db : Db) (registry : ConstraintRegistry) (frontier : Timestamp) :
    Control (start db registry frontier) where
  lock _ _ h := by cases h
  applied _ _ _ h := by cases h
  stamped _ _ _ h := by cases h
  latest _ _ _ _ _ _ _ h := by cases h

end System

end Aletheia
