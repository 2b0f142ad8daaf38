import Aletheia.CommitClock

/-!
# Isolation of the commit clock

The invariant says of every thread what it may rely on where it stands. Readers only need that the
clock grows: the frontier goes up, new stamps are above it, and settled commits stay settled. The
holder of the lock also needs the frontier to be its own, which a reader's reservation disturbs in
one place, between the load and the store of `raise_to`.
-/

namespace Aletheia.CommitClock

open Function List Machine Option

variable {s s' : State} {t : ThreadId} {w : Word} {c ts : Timestamp} {pc : Pc}

def Event.time : Event → Timestamp
  | .snapshot ts | .stamp ts | .applied ts | .aborted ts => ts

/-- What stays true of a clock when others go on. -/
structure Grows (s s' : State) : Prop where
  frontier_le : s.frontierTs ≤ s'.frontierTs
  stamps : ∀ c, .stamp c ∈ s'.log → .stamp c ∈ s.log ∨ s.frontierTs < c
  settled : ∀ c, Settled s.log c → Settled s'.log c

/-- A word that a reader has loaded, with no commit in flight. -/
structure Loaded (s : State) (w : Word) : Prop where
  idle : isInFlight w = false
  le : stateTimestamp w ≤ s.frontierTs
  settled : ∀ c, .stamp c ∈ s.log → c < stateTimestamp w → Settled s.log c

lemma Loaded.grows (h : Loaded s w) (hg : Grows s s') : Loaded s' w where
  idle := h.idle
  le := h.le.trans hg.frontier_le
  settled c hc hlt := by
    rcases hg.stamps c hc with hold | hnew
    · exact hg.settled c (h.settled c hold hlt)
    · exact absurd (hlt.trans_le h.le) hnew.asymm

/-- The lock is held and no commit is in flight. -/
def Held (s : State) (t : ThreadId) : Prop := s.serial = some t ∧ isInFlight s.frontier = false

/-- The lock is held for the commit in flight. -/
def Flying (s : State) (t : ThreadId) (c : Timestamp) : Prop :=
  s.serial = some t ∧ s.frontier = pack c ||| inFlightBit ∧ InRange c

/-- What a thread may rely on where it stands. -/
def ThreadOk (s : State) (t : ThreadId) : Pc → Prop
  | .idle | .readLoad => True
  | .readNow w => Loaded s w
  | .readCas w snapshot => Loaded s w ∧ stateTimestamp w < snapshot ∧ InRange snapshot
  | .commitLoad | .unlock | .raiseApplied _ => Held s t
  | .commitCas w commit => Held s t ∧ stateTimestamp w < commit ∧ InRange commit
  | .applying commit => Flying s t commit
  | .publish commit | .clearFlag commit => Flying s t commit ∧ Settled s.log commit
  | .raiseLoad ts => Held s t ∧ InRange ts
  | .raiseStore ts => Held s t ∧ s.frontierTs ≤ ts ∧ InRange ts

def Pc.Locked : Pc → Prop
  | .idle | .readLoad | .readNow _ | .readCas _ _ => False
  | _ => True

lemma ThreadOk.serial_eq (h : ThreadOk s t pc) (hl : pc.Locked) : s.serial = some t := by
  cases pc with
  | idle | readLoad | readNow | readCas => exact hl.elim
  | commitLoad | unlock | raiseApplied | applying => exact h.1
  | commitCas | raiseLoad | raiseStore | publish | clearFlag => exact h.1.1

lemma ThreadOk.of_grows (h : ThreadOk s t pc) (hl : ¬ pc.Locked) (hg : Grows s s') :
    ThreadOk s' t pc := by
  cases pc with
  | idle | readLoad => trivial
  | readNow => exact Loaded.grows h hg
  | readCas => exact ⟨h.1.grows hg, h.2⟩
  | _ => exact absurd trivial hl

lemma ThreadOk.of_eq (h : ThreadOk s t pc) (hserial : s'.serial = s.serial)
    (hfrontier : s'.frontier = s.frontier) (hg : Grows s s') : ThreadOk s' t pc := by
  cases pc with
  | idle | readLoad => trivial
  | readNow => exact Loaded.grows h hg
  | readCas => exact ⟨h.1.grows hg, h.2⟩
  | publish | clearFlag =>
    refine ⟨?_, hg.settled _ h.2⟩
    simpa only [Flying, hserial, hfrontier] using h.1
  | _ => simpa only [ThreadOk, Held, Flying, State.frontierTs, hserial, hfrontier] using h

/-! ### The log -/

/-- What the log says, and that the frontier is above all of it. -/
structure LogOk (s : State) : Prop where
  below : ∀ e ∈ s.log, e.time ≤ s.frontierTs
  settled : ∀ c, .stamp c ∈ s.log →
    Settled s.log c ∨ isInFlight s.frontier = true ∧ c = s.frontierTs
  ordered : s.log.Pairwise Event.After
  snapshots : SnapshotsSettled s.log

lemma LogOk.settled_of_idle (h : LogOk s) (hidle : isInFlight s.frontier = false)
    (hc : .stamp c ∈ s.log) : Settled s.log c := by
  rcases h.settled c hc with hs | ⟨hfl, -⟩
  · exact hs
  · exact absurd (hidle.symm.trans hfl) Bool.false_ne_true

lemma LogOk.settled_of_lt (h : LogOk s) (hc : .stamp c ∈ s.log) (hlt : c < s.frontierTs) :
    Settled s.log c := by
  rcases h.settled c hc with hs | ⟨-, rfl⟩
  · exact hs
  · exact absurd hlt (lt_irrefl _)

lemma LogOk.keep (h : LogOk s) (hlog : s'.log = s.log) (hle : s.frontierTs ≤ s'.frontierTs)
    (hfl : s'.frontier = s.frontier ∨ ∀ c, .stamp c ∈ s.log → Settled s.log c) : LogOk s' where
  below e he := (h.below e (hlog ▸ he)).trans hle
  settled c hc := by
    rw [hlog] at hc ⊢
    rcases hfl with heq | hall
    · rw [State.frontierTs, heq]
      exact h.settled c hc
    · exact .inl (hall c hc)
  ordered := hlog ▸ h.ordered
  snapshots := hlog ▸ h.snapshots

lemma LogOk.snapshot (h : LogOk s) (hlog : s'.log = .snapshot ts :: s.log)
    (hfrontier : s'.frontier = s.frontier) (hle : ts ≤ s.frontierTs)
    (hset : ∀ c, .stamp c ∈ s.log → c < ts → Settled s.log c) : LogOk s' where
  below e he := by
    rw [hlog] at he
    rw [State.frontierTs, hfrontier]
    rcases mem_cons.mp he with rfl | he
    · exact hle
    · exact h.below e he
  settled c hc := by
    rw [hlog, mem_cons] at hc
    rw [hlog, State.frontierTs, hfrontier]
    rcases hc with hc | hc
    · cases hc
    · exact (h.settled c hc).imp (fun hs => hs.imp (mem_cons_of_mem _) (mem_cons_of_mem _)) id
  ordered := by
    rw [hlog]
    exact pairwise_cons.mpr ⟨fun _ _ => trivial, h.ordered⟩
  snapshots := by
    rw [hlog]
    exact ⟨hset, h.snapshots⟩

lemma LogOk.stamp (h : LogOk s) (hlog : s'.log = .stamp c :: s.log)
    (hfrontier : s'.frontier = pack c ||| inFlightBit) (hc : InRange c) (hlt : s.frontierTs < c)
    (hidle : isInFlight s.frontier = false) : LogOk s' where
  below e he := by
    rw [hlog] at he
    rw [State.frontierTs, hfrontier, stateTimestamp_inFlight hc]
    rcases mem_cons.mp he with rfl | he
    · exact le_rfl
    · exact (h.below e he).trans hlt.le
  settled c' hc' := by
    rw [hlog, mem_cons] at hc'
    rw [hlog, State.frontierTs, hfrontier, stateTimestamp_inFlight hc]
    rcases hc' with hc' | hc'
    · cases hc'
      exact .inr ⟨isInFlight_inFlight, rfl⟩
    · exact .inl ((h.settled_of_idle hidle hc').imp (mem_cons_of_mem _) (mem_cons_of_mem _))
  ordered := by
    rw [hlog]
    refine pairwise_cons.mpr ⟨fun e he => ?_, h.ordered⟩
    have hle := (h.below e he).trans_lt hlt
    cases e with
    | snapshot | stamp => exact hle
    | applied | aborted => trivial
  snapshots := by
    rw [hlog]
    exact h.snapshots

lemma LogOk.settle {e : Event} (h : LogOk s) (he : e = .applied c ∨ e = .aborted c)
    (hlog : s'.log = e :: s.log) (hc : c = s.frontierTs) (hle : s'.frontierTs = s.frontierTs) :
    LogOk s' where
  below e' he' := by
    rw [hlog] at he'
    rw [hle]
    rcases mem_cons.mp he' with rfl | he'
    · rcases he with rfl | rfl <;> exact hc.le
    · exact h.below e' he'
  settled c' hc' := by
    have hmem : Settled s'.log c := by
      rw [Settled, hlog]
      rcases he with rfl | rfl
      · exact .inl mem_cons_self
      · exact .inr mem_cons_self
    have hold : .stamp c' ∈ s.log := by
      rw [hlog, mem_cons] at hc'
      refine hc'.resolve_left ?_
      rcases he with rfl | rfl <;> exact Event.noConfusion
    rcases h.settled c' hold with hs | ⟨-, rfl⟩
    · rw [hlog]
      exact .inl (hs.imp (mem_cons_of_mem _) (mem_cons_of_mem _))
    · exact .inl (hc ▸ hmem)
  ordered := by
    rw [hlog]
    refine pairwise_cons.mpr ⟨fun e' _ => ?_, h.ordered⟩
    rcases he with rfl | rfl <;> trivial
  snapshots := by
    rw [hlog]
    rcases he with rfl | rfl <;> exact h.snapshots

/-! ### The invariant and its steps -/

structure Inv (s : State) : Prop where
  free : s.serial = none → isInFlight s.frontier = false
  threads : ∀ t, ThreadOk s t (s.pc t)
  log : LogOk s

lemma inv_new (ts : Timestamp) : Inv (.new ts) where
  free _ := isInFlight_plain
  threads _ := trivial
  log := ⟨by simp [State.new], by simp [State.new], .nil, trivial⟩

lemma Grows.of_log (hlog : s'.log = s.log) (hle : s.frontierTs ≤ s'.frontierTs) : Grows s s' :=
  ⟨hle, fun _ hc => .inl (hlog ▸ hc), fun _ hs => hlog ▸ hs⟩

lemma Grows.of_cons {e : Event} (hlog : s'.log = e :: s.log) (hle : s.frontierTs ≤ s'.frontierTs)
    (hstamp : ∀ c, e = .stamp c → s.frontierTs < c) : Grows s s' where
  frontier_le := hle
  stamps c hc := by
    rw [hlog, mem_cons] at hc
    rcases hc with hc | hc
    · exact .inr (hstamp c hc.symm)
    · exact .inl hc
  settled c hs := by
    rw [hlog]
    exact hs.imp (mem_cons_of_mem _) (mem_cons_of_mem _)

section Step

variable (h : Inv s) (hpc : s'.pc = Function.update s.pc t pc) (hg : Grows s s')
  (hown : ThreadOk s' t pc) (hlog : LogOk s')

include h hpc hown

omit h in
lemma threads_update (hother : ∀ t' ≠ t, ThreadOk s' t' (s.pc t')) (t' : ThreadId) :
    ThreadOk s' t' (s'.pc t') := by
  rw [hpc]
  by_cases heq : t' = t
  · subst heq
    rwa [update_self]
  · rw [update_of_ne heq]
    exact hother t' heq

include hg hlog

lemma Inv.plainStep (hserial : s'.serial = s.serial) (hfrontier : s'.frontier = s.frontier) :
    Inv s' where
  free hnone := by
    rw [hfrontier]
    exact h.free (hserial ▸ hnone)
  threads := threads_update hpc hown fun t' _ => (h.threads t').of_eq hserial hfrontier hg
  log := hlog

variable (pc) in
lemma Inv.lockedStep (hheld : s.serial = some t ∨ s.serial = none)
    (hfree : s'.serial = none → isInFlight s'.frontier = false) : Inv s' where
  free := hfree
  threads := threads_update hpc hown fun t' hne => by
    refine (h.threads t').of_grows (fun hlocked => ?_) hg
    have hserial := (h.threads t').serial_eq hlocked
    rcases hheld with hheld | hheld
    · exact hne (some.inj (hserial.symm.trans hheld))
    · exact nomatch hserial.symm.trans hheld
  log := hlog

end Step

section Reserve

variable {snapshot : Timestamp} (hidle : isInFlight s.frontier = false)
  (hlt : s.frontierTs < snapshot) (hr : InRange snapshot) (hserial : s'.serial = s.serial)
  (hfrontier : s'.frontier = pack snapshot ||| reservedBit)
  (hlog : s'.log = .snapshot snapshot :: s.log)

include hlt hr hfrontier hlog

lemma grows_reserve : Grows s s' := by
  refine .of_cons hlog ?_ fun _ hc => nomatch hc
  rw [State.frontierTs, State.frontierTs, hfrontier, stateTimestamp_reserved hr]
  exact hlt.le

include hidle hserial

/-- The holder of the lock, if any, stands where a reservation does not matter, or where the
reservation stays below what it will store. -/
lemma ThreadOk.of_reserve (h : ThreadOk s t pc)
    (hraise : ∀ ts, pc = .raiseStore ts → snapshot ≤ ts) : ThreadOk s' t pc := by
  have hg := grows_reserve hlt hr hfrontier hlog
  have hheld : Held s t → Held s' t := fun hh =>
    ⟨hserial.trans hh.1, by rw [hfrontier]; exact isInFlight_reserved⟩
  have hfly : ∀ {c}, ¬ Flying s t c := fun hf => by
    rw [hf.2.1, isInFlight_inFlight] at hidle
    cases hidle
  cases pc with
  | idle | readLoad => trivial
  | readNow => exact Loaded.grows h hg
  | readCas => exact ⟨h.1.grows hg, h.2⟩
  | commitLoad | unlock | raiseApplied => exact hheld h
  | commitCas | raiseLoad => exact ⟨hheld h.1, h.2⟩
  | applying => exact absurd h hfly
  | publish | clearFlag => exact absurd h.1 hfly
  | raiseStore ts =>
    refine ⟨hheld h.1, ?_, h.2.2⟩
    rw [State.frontierTs, hfrontier, stateTimestamp_reserved hr]
    exact hraise ts rfl

lemma Inv.reserveStep (h : Inv s) (hpc : s'.pc = update s.pc t .idle)
    (hraise : ∀ t' ts, s.pc t' = .raiseStore ts → snapshot ≤ ts) : Inv s' where
  free _ := by rw [hfrontier]; exact isInFlight_reserved
  threads := threads_update hpc trivial fun t' _ =>
    (h.threads t').of_reserve hidle hlt hr hserial hfrontier hlog fun ts => hraise t' ts
  log := by
    have hall : ∀ c, .stamp c ∈ s.log → Settled s.log c := fun c hc =>
      h.log.settled_of_idle hidle hc
    have hts : s'.frontierTs = snapshot := by
      rw [State.frontierTs, hfrontier, stateTimestamp_reserved hr]
    have hkeep : LogOk { s' with log := s.log } := h.log.keep rfl (hlt.le.trans hts.ge) (.inr hall)
    exact hkeep.snapshot hlog rfl hts.ge fun c hc _ => hall c hc

end Reserve

/-! ### Every step -/

lemma nextLogical_eq_some {last snapshot : Timestamp} (h : nextLogical last = some snapshot) :
    last.logical + 1 < 2 ^ 32 ∧ snapshot = ⟨last.wallclock, last.logical + 1⟩ := by
  rw [nextLogical] at h
  split_ifs at h with hlt
  exact ⟨hlt, (some.inj h).symm⟩

lemma reserve_frontier {now : Timestamp} : (reserve s t w now).frontier = s.frontier := by
  simp only [reserve]
  split_ifs
  · rfl
  · rfl
  · rcases nextLogical (stateTimestamp w) with _ | snapshot <;> rfl

section Cases

variable (h : Inv s)

include h

lemma Inv.goto (hown : ThreadOk s t pc) : Inv (s.goto t pc) := by
  have hg : Grows s (s.goto t pc) := .of_log rfl le_rfl
  exact h.plainStep rfl hg (hown.of_eq rfl rfl hg) (h.log.keep rfl le_rfl (.inl rfl)) rfl rfl

lemma Inv.answer (hle : ts ≤ s.frontierTs)
    (hset : ∀ c, .stamp c ∈ s.log → c < ts → Settled s.log c) : Inv (s.answer t ts) :=
  h.plainStep rfl (.of_cons rfl le_rfl fun _ hc => nomatch hc) trivial
    (h.log.snapshot rfl rfl hle hset) rfl rfl

lemma Inv.lock (hfree : s.serial = none)
    (hown : ThreadOk ({ s with serial := some t }.goto t pc) t pc) :
    Inv ({ s with serial := some t }.goto t pc) :=
  h.lockedStep pc rfl (.of_log rfl le_rfl) hown (h.log.keep rfl le_rfl (.inl rfl)) (.inr hfree)
    fun hnone => nomatch hnone

lemma Inv.reserve {now : Timestamp} (hw : Loaded s w) (hnow : InRange now) :
    Inv (reserve s t w now) := by
  simp only [CommitClock.reserve]
  split_ifs with hshare hlt
  · exact h.answer hw.le hw.settled
  · exact h.goto ⟨hw, hlt, hnow⟩
  · rcases hnext : nextLogical (stateTimestamp w) with _ | snapshot
    · exact h.goto trivial
    · obtain ⟨hlog, rfl⟩ := nextLogical_eq_some hnext
      have hr := inRange_stateTimestamp w
      refine h.goto ⟨hw, ?_, hr.1, hr.2, hlog⟩
      rw [HybridTimestamp.lt_def]
      exact .inr ⟨rfl, Nat.lt_succ_self _⟩

lemma Inv.abort (hf : Flying s t c) : Inv (abort s t c) := by
  have hts : c = s.frontierTs := by
    rw [State.frontierTs, hf.2.1, stateTimestamp_inFlight hf.2.2]
  have hclear : (CommitClock.abort s t c).frontierTs = s.frontierTs := stateTimestamp_clear _
  refine h.lockedStep (t := t) .unlock rfl ?_ ⟨hf.1, isInFlight_clear _⟩ ?_ (.inl hf.1)
    fun _ => isInFlight_clear _
  · exact .of_cons rfl hclear.ge fun _ hc => nomatch hc
  · exact h.log.settle (.inr rfl) rfl hts hclear

end Cases

/-- A `raise_to` between its load and its store holds the lock, so a run in which it is not raced
installs no reservation above its timestamp. -/
lemma Inv.raise_le {state : Word} {snapshot : Timestamp} (h : Inv s)
    (hpc : s.pc t = .readCas state snapshot) (hun : Unraced s (t, .next)) (t' : ThreadId)
    (hraise : s.pc t' = .raiseStore ts) : snapshot ≤ ts := by
  have hserial := (h.threads t').serial_eq (by rw [hraise]; trivial)
  simpa only [Unraced, hpc, hserial, map_some, hraise] using hun

/-- **Every step keeps the invariant and does not lower the frontier.** -/
theorem inv_step {a : ThreadId × Choice} (h : Inv s) (hun : Unraced s a)
    (hstep : step s a = some s') : Inv s' ∧ s.frontierTs ≤ s'.frontierTs := by
  obtain ⟨t, ch⟩ := a
  have hok := h.threads t
  rcases hpc : s.pc t with _ | _ | w | ⟨w, snapshot⟩ | _ | ⟨w, c⟩ | c | c | c | _ | ts | ts | ts <;>
    rcases ch with _ | _ | r | _ | r | _ <;>
    simp only [step, hpc, reduceCtorEq, some.injEq, ite_none_right_eq_some] at hstep <;>
    rw [hpc] at hok
  · -- idle
    subst hstep
    exact ⟨h.goto trivial, le_rfl⟩
  · obtain ⟨hfree, rfl⟩ := hstep
    exact ⟨h.lock hfree ⟨rfl, h.free hfree⟩, le_rfl⟩
  · obtain ⟨hfree, rfl⟩ := hstep
    exact ⟨h.lock hfree ⟨⟨rfl, h.free hfree⟩, r.property⟩, le_rfl⟩
  · -- `snapshot_for_read`
    split_ifs at hstep with hfl <;> cases hstep
    · exact ⟨h.answer le_rfl fun c hc hlt => h.log.settled_of_lt hc hlt, le_rfl⟩
    · exact ⟨h.goto ⟨Bool.not_eq_true _ ▸ hfl, le_rfl,
        fun c hc hlt => h.log.settled_of_lt hc hlt⟩, le_rfl⟩
  · subst hstep
    exact ⟨h.reserve hok r.property, by rw [State.frontierTs, State.frontierTs, reserve_frontier]⟩
  · split_ifs at hstep with heq <;> cases hstep
    · subst heq
      obtain ⟨hw, hlt, hr⟩ := hok
      exact ⟨h.reserveStep hw.idle hlt hr rfl rfl rfl rfl fun t' ts => h.raise_le hpc hun t',
        hlt.le.trans (stateTimestamp_reserved hr).ge⟩
    · exact ⟨h.goto trivial, le_rfl⟩
  · subst hstep
    exact ⟨h.goto trivial, le_rfl⟩
  · -- `advance_with`
    obtain ⟨hlt, rfl⟩ := hstep
    exact ⟨h.goto ⟨hok, hlt, r.property⟩, le_rfl⟩
  · subst hstep
    exact ⟨h.goto hok, le_rfl⟩
  · split_ifs at hstep with heq <;> cases hstep
    · subst heq
      obtain ⟨⟨hserial, hidle⟩, hlt, hr⟩ := hok
      have hle : s.frontierTs ≤ stateTimestamp (pack c ||| inFlightBit) :=
        hlt.le.trans (stateTimestamp_inFlight hr).ge
      refine ⟨h.lockedStep (t := t) (.applying c) rfl ?_ ⟨hserial, rfl, hr⟩ ?_ (.inl hserial)
        (fun hnone => nomatch hserial.symm.trans hnone), hle⟩
      · refine .of_cons rfl hle fun c' hc' => ?_
        cases hc'
        exact hlt
      · exact h.log.stamp rfl rfl hr hlt hidle
    · exact ⟨h.goto hok.1, le_rfl⟩
  · subst hstep
    exact ⟨h.goto hok.1, le_rfl⟩
  · -- the storage apply is done
    subst hstep
    have hts : c = s.frontierTs := by
      rw [State.frontierTs, hok.2.1, stateTimestamp_inFlight hok.2.2]
    have hg : Grows s ((s.record (.applied c)).goto t (.publish c)) :=
      .of_cons rfl le_rfl fun _ hc' => nomatch hc'
    exact ⟨h.plainStep rfl hg ⟨hok, .inl mem_cons_self⟩
      (h.log.settle (.inl rfl) rfl hts rfl) rfl rfl, le_rfl⟩
  · subst hstep
    exact ⟨h.abort hok, (stateTimestamp_clear _).ge⟩
  · subst hstep
    exact ⟨h.plainStep rfl (.of_log rfl le_rfl) hok (h.log.keep rfl le_rfl (.inl rfl)) rfl rfl,
      le_rfl⟩
  · subst hstep
    exact ⟨h.abort hok.1, (stateTimestamp_clear _).ge⟩
  · -- `publish_applied` takes the flag off
    subst hstep
    obtain ⟨hfly, hset⟩ := hok
    have hts : c = s.frontierTs := by
      rw [State.frontierTs, hfly.2.1, stateTimestamp_inFlight hfly.2.2]
    have hall : ∀ c', .stamp c' ∈ s.log → Settled s.log c' := by
      intro c' hc'
      rcases h.log.settled c' hc' with hs | ⟨-, rfl⟩
      · exact hs
      · exact hts ▸ hset
    have hle : s.frontierTs ≤ stateTimestamp (s.frontier &&& ~~~inFlightBit) :=
      (stateTimestamp_clear _).ge
    exact ⟨h.lockedStep (t := t) .unlock rfl (.of_log rfl hle)
      ⟨hfly.1, isInFlight_clear _⟩ (h.log.keep rfl hle (.inr hall)) (.inl hfly.1)
      fun _ => isInFlight_clear _, hle⟩
  · subst hstep
    exact ⟨h.lockedStep _ rfl (.of_log rfl le_rfl) trivial (h.log.keep rfl le_rfl (.inl rfl))
      (.inl hok.1) fun _ => hok.2, le_rfl⟩
  · -- `raise_to`
    split_ifs at hstep with hle <;> cases hstep
    · exact ⟨h.goto hok.1, le_rfl⟩
    · exact ⟨h.goto ⟨hok.1, (not_le.mp hle).le, hok.2⟩, le_rfl⟩
  · subst hstep
    obtain ⟨⟨hserial, hidle⟩, hle, hr⟩ := hok
    have hle' : s.frontierTs ≤ stateTimestamp (pack ts) := hle.trans (stateTimestamp_plain hr).ge
    exact ⟨h.lockedStep (t := t) (.raiseApplied ts) rfl (.of_log rfl hle')
      ⟨hserial, isInFlight_plain⟩
      (h.log.keep rfl hle' (.inr fun c hc => h.log.settled_of_idle hidle hc)) (.inl hserial)
      fun _ => isInFlight_plain, hle'⟩
  · subst hstep
    exact ⟨h.plainStep rfl (.of_log rfl le_rfl) hok (h.log.keep rfl le_rfl (.inl rfl)) rfl rfl,
      le_rfl⟩

/-- **Commit-clock isolation** in every run that lets no reservation overtake a `raise_to`: the
frontier does not go down, stamps are above what was handed out before them, and a returned snapshot
has only settled commits below it. -/
theorem commit_clock_isolation (start : Timestamp) (as bs : List (ThreadId × Choice))
    (s s' : State) (hun : Machine.Along step Unraced (.new start) (as ++ bs))
    (hrun : Machine.run step (.new start) as = some s) (hrun' : Machine.run step s bs = some s') :
    s.frontierTs ≤ s'.frontierTs ∧ s'.log.Pairwise Event.After ∧ SnapshotsSettled s'.log := by
  obtain ⟨has, hbs⟩ := hun.append hrun
  have hinv : Inv s := invariant_run (fun _ _ _ h hp hs => (inv_step h hp hs).1)
    (inv_new start) has hrun
  have hinv' : Inv s' := invariant_run (fun _ _ _ h hp hs => (inv_step h hp hs).1)
    hinv hbs hrun'
  have hle : s.frontierTs ≤ s'.frontierTs :=
    relation_run (R := fun s s' : State => s.frontierTs ≤ s'.frontierTs)
      (fun _ => le_rfl) (fun _ _ _ => le_trans) (fun _ _ _ h hp hs => inv_step h hp hs) hinv hbs hrun'
  exact ⟨hle, hinv'.log.ordered, hinv'.log.snapshots⟩

/-- Thread 0 raises the clock to 5. Between its load and its store, thread 1 reads at wallclock 10;
thread 2 then commits. -/
def racedRaise : List (ThreadId × Choice) :=
  [(0, .raise ⟨⟨5, 0⟩, by decide⟩), (0, .next), (1, .read), (1, .next),
    (1, .given ⟨⟨10, 0⟩, by decide⟩), (1, .next), (0, .next), (0, .next), (0, .next), (2, .commit),
    (2, .given ⟨⟨6, 0⟩, by decide⟩), (2, .next)]

/-- The store of `raise_to` takes the frontier back from 10 to 5, and the next commit is stamped
below the snapshot that was returned. -/
theorem raise_to_loses_reservation :
    ∃ s s', Machine.run step (.new ⟨0, 0⟩) (racedRaise.take 6) = some s ∧
      Machine.run step s (racedRaise.drop 6) = some s' ∧ s'.frontierTs < s.frontierTs ∧
      ¬ s'.log.Pairwise Event.After := by
  have heval : ((run step (.new ⟨0, 0⟩) (racedRaise.take 6)).bind fun s =>
      (run step s (racedRaise.drop 6)).map fun s' => (s.frontierTs, s'.frontierTs, s'.log)) =
      some (⟨10, 0⟩, ⟨6, 0⟩, [.stamp ⟨6, 0⟩, .snapshot ⟨10, 0⟩]) := by
    decide +kernel
  obtain ⟨s, hrun, hmap⟩ := bind_eq_some_iff.mp heval
  obtain ⟨s', hrun', hres⟩ := map_eq_some_iff.mp hmap
  simp only [Prod.mk.injEq] at hres
  obtain ⟨hts, hts', hlog⟩ := hres
  refine ⟨s, s', hrun, hrun', by rw [hts, hts']; decide, fun hord => ?_⟩
  rw [hlog] at hord
  have hlt : (⟨10, 0⟩ : Timestamp) < ⟨6, 0⟩ := rel_of_pairwise_cons hord mem_cons_self
  exact absurd hlt (by decide)

/-- A reader parks on a commit in flight, the commit is published, and the clock is raised. -/
def parkedRead : List (ThreadId × Choice) :=
  [(0, .commit), (0, .given ⟨⟨1, 0⟩, by decide⟩), (0, .next), (1, .read), (1, .next), (0, .next),
    (0, .next), (0, .next), (0, .next), (2, .raise ⟨⟨7, 0⟩, by decide⟩), (2, .next), (2, .next)]

theorem commit_clock_isolation_parked :
    ∃ s s', Machine.run step (.new ⟨0, 0⟩) (parkedRead.take 5) = some s ∧
      Machine.run step s (parkedRead.drop 5) = some s' ∧ s.frontierTs ≤ s'.frontierTs ∧
      s'.log.Pairwise Event.After ∧ SnapshotsSettled s'.log := by
  have hsome : ((run step (.new ⟨0, 0⟩) (parkedRead.take 5)).bind fun s =>
      run step s (parkedRead.drop 5)).isSome = true := by
    decide +kernel
  obtain ⟨s', hs'⟩ := isSome_iff_exists.mp hsome
  obtain ⟨s, hrun, hrun'⟩ := bind_eq_some_iff.mp hs'
  exact ⟨s, s', hrun, hrun', commit_clock_isolation ⟨0, 0⟩ (parkedRead.take 5) (parkedRead.drop 5)
    s s' (by decide +kernel) hrun hrun'⟩

end Aletheia.CommitClock
