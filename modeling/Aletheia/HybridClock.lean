import Aletheia.Exec
import Aletheia.Temporal

/-!
# Hybrid logical clocks

A node moves its clock by `send`, by `receive` with the timestamp of a message, or by the checked send
of the transaction coordinator: the physical reading is compared with the clock, and an overflow of
the logical counter may be healed by a microsecond. Readings and messages are arbitrary.
-/

namespace Aletheia

open Exec

namespace HybridTimestamp

/-- The counter is a `u32`. -/
def incrementLogical (logical : ℕ) (wallclock : ℤ) : Except TemporalError ℕ :=
  if logical + 1 < 2 ^ 32 then .ok (logical + 1)
  else .error (.logicalCounterOverflow wallclock logical)

def send (t : Timestamp) (newWallclock : ℤ) : Except TemporalError Timestamp :=
  if newWallclock > maxValidTimestamp then .error (.invalidTimestamp ⟨newWallclock, 0⟩)
  else if newWallclock > t.wallclock then .ok ⟨newWallclock, 0⟩
  else (incrementLogical t.logical t.wallclock).map fun logical => ⟨t.wallclock, logical⟩

def receive (t msg : Timestamp) (physicalWallclock : ℤ) : Except TemporalError Timestamp :=
  let newWallclock := max (max t.wallclock msg.wallclock) physicalWallclock
  if newWallclock > maxValidTimestamp then .error (.invalidTimestamp ⟨newWallclock, 0⟩)
  else
    let logical :=
      if newWallclock > t.wallclock ∧ newWallclock > msg.wallclock then .ok 0
      else if newWallclock = t.wallclock ∧ newWallclock = msg.wallclock then
        incrementLogical (max t.logical msg.logical) newWallclock
      else if newWallclock = t.wallclock then incrementLogical t.logical newWallclock
      else incrementLogical msg.logical newWallclock
    logical.map fun logical => ⟨newWallclock, logical⟩

variable {t t' msg : Timestamp} {wallclock : ℤ}

lemma of_map_incrementLogical {logical : ℕ}
    (h : ((incrementLogical logical wallclock).map fun l => (⟨wallclock, l⟩ : Timestamp)) = .ok t') :
    t' = ⟨wallclock, logical + 1⟩ := by
  simp only [incrementLogical] at h
  split at h
  · cases h
    rfl
  · cases h

lemma lt_send (h : t.send wallclock = .ok t') : t < t' := by
  simp only [send] at h
  split_ifs at h with hvalid hlater
  · cases h
    exact .inl hlater
  · rw [of_map_incrementLogical h, lt_def]
    exact .inr ⟨rfl, Nat.lt_succ_self _⟩

lemma lt_receive (h : t.receive msg wallclock = .ok t') : t < t' ∧ msg < t' := by
  simp only [receive] at h
  have hlocal : t.wallclock ≤ max (max t.wallclock msg.wallclock) wallclock := by omega
  have hmsg : msg.wallclock ≤ max (max t.wallclock msg.wallclock) wallclock := by omega
  generalize max (max t.wallclock msg.wallclock) wallclock = new at h hlocal hmsg
  split_ifs at h with hvalid hphysical hboth honly
  · cases h
    exact ⟨.inl hphysical.1, .inl hphysical.2⟩
  all_goals
    rw [of_map_incrementLogical h]
    simp only [lt_def]
    omega

end HybridTimestamp

/-! ### The checked send -/

inductive ClockSkewDirection where
  | backward
  | forward
deriving DecidableEq, Repr

structure ClockSkewDecision where
  driftUs : ℤ
  effectiveWallclock : ℤ
  healedDirection : Option ClockSkewDirection
deriving DecidableEq, Repr

structure ClockSkewViolation where
  driftUs : ℤ
  maxAllowed : ℤ
  direction : ClockSkewDirection
deriving DecidableEq, Repr

/-- `i64::saturating_sub`. -/
def saturatingSub (a b : ℤ) : ℤ := max (-2 ^ 63) (min i64Max (a - b))

/-- `MAX_BACKWARD_DRIFT_US`. -/
def maxBackwardDriftUs : ℤ := 5 * 60 * 1000000

def evaluateClockSkew (currentWallclock frontierWallclock : ℤ) (maxForwardJumpUs : Option ℤ)
    (selfHealClockSkew : Bool) : Except ClockSkewViolation ClockSkewDecision := do
  let drift := saturatingSub currentWallclock frontierWallclock
  let mut effectiveWallclock := currentWallclock
  let mut healedDirection := none
  if drift < -maxBackwardDriftUs then
    if !selfHealClockSkew then throw ⟨drift, -maxBackwardDriftUs, .backward⟩
    effectiveWallclock := frontierWallclock
    healedDirection := some .backward
  if let some limit := maxForwardJumpUs then
    if drift > limit then
      if !selfHealClockSkew then throw ⟨drift, limit, .forward⟩
      effectiveWallclock := frontierWallclock
      healedDirection := some .forward
  return ⟨drift, effectiveWallclock, healedDirection⟩

inductive SendWithSelfHealError where
  | initialSend (e : TemporalError)
  | fallbackWallclockOverflow (wallclock : ℤ) (currentLogical : ℕ)
  | fallbackSend (e : TemporalError)
deriving DecidableEq, Repr

def sendWithOverflowSelfHeal (frontier : Timestamp) (effectiveWallclock : ℤ)
    (selfHealClockSkew : Bool) : Except SendWithSelfHealError Timestamp :=
  match frontier.send effectiveWallclock with
  | .ok next => .ok next
  | .error (.logicalCounterOverflow wallclock currentLogical) =>
    if selfHealClockSkew then
      if wallclock + 1 > i64Max then .error (.fallbackWallclockOverflow wallclock currentLogical)
      else (frontier.send (wallclock + 1)).mapError .fallbackSend
    else .error (.initialSend (.logicalCounterOverflow wallclock currentLogical))
  | .error e => .error (.initialSend e)

lemma lt_sendWithOverflowSelfHeal {frontier next : Timestamp} {wallclock : ℤ} {heal : Bool}
    (h : sendWithOverflowSelfHeal frontier wallclock heal = .ok next) : frontier < next := by
  simp only [sendWithOverflowSelfHeal] at h
  split at h
  next hsend =>
    cases h
    exact HybridTimestamp.lt_send hsend
  next =>
    split_ifs at h
    exact HybridTimestamp.lt_send (except_mapError_eq_ok.mp h)
  next => cases h

/-! ### Nodes -/

namespace HybridClock

inductive ClockError where
  | skew (violation : ClockSkewViolation)
  | send (e : SendWithSelfHealError)
  | temporal (e : TemporalError)
deriving DecidableEq, Repr

variable {N : Type}

/-- A call on the clock of a node, with the physical reading. -/
inductive Call (N : Type) where
  | send (node : N) (wallclock : ℤ)
  /-- `next_commit_timestamp`, with its limit of forward jumps -/
  | checkedSend (node : N) (wallclock : ℤ) (limit : Option ℤ) (selfHeal : Bool)
  /-- a message comes in -/
  | receive (node : N) (msg : Timestamp) (wallclock : ℤ)

namespace Call

def node : Call N → N
  | .send n _ | .checkedSend n _ _ _ | .receive n _ _ => n

def received : Call N → Option Timestamp
  | .receive _ msg _ => some msg
  | _ => none

/-- The timestamp that the call issues on a clock. -/
def issue (frontier : Timestamp) : Call N → Except ClockError Timestamp
  | .send _ wallclock => (frontier.send wallclock).mapError .temporal
  | .checkedSend _ wallclock limit selfHeal => do
    let decision ← (evaluateClockSkew wallclock frontier.wallclock limit selfHeal).mapError .skew
    (sendWithOverflowSelfHeal frontier decision.effectiveWallclock selfHeal).mapError .send
  | .receive _ msg wallclock => (frontier.receive msg wallclock).mapError .temporal

lemma lt_issue {c : Call N} {frontier t : Timestamp} (h : c.issue frontier = .ok t) :
    frontier < t ∧ ∀ m ∈ c.received, m < t := by
  cases c with
  | send n wallclock => exact ⟨HybridTimestamp.lt_send (except_mapError_eq_ok.mp h), nofun⟩
  | checkedSend n wallclock limit selfHeal =>
    obtain ⟨decision, -, hsend⟩ := except_bind_eq_ok.mp h
    exact ⟨lt_sendWithOverflowSelfHeal (except_mapError_eq_ok.mp hsend), nofun⟩
  | receive n msg wallclock =>
    obtain ⟨hclock, hmsg⟩ := HybridTimestamp.lt_receive (except_mapError_eq_ok.mp h)
    refine ⟨hclock, fun m hm => ?_⟩
    cases hm
    exact hmsg

end Call

/-- A timestamp issued by a node, and the message that it was issued on. -/
structure Event (N : Type) where
  node : N
  received : Option Timestamp
  issued : Timestamp

/-- The clocks, and what was issued so far. -/
structure Clocks (N : Type) where
  clock : N → Timestamp
  log : List (Event N)

variable [DecidableEq N]

namespace Clocks

def call (s : Clocks N) (c : Call N) : Clocks N × Except ClockError Timestamp :=
  match c.issue (s.clock c.node) with
  | .ok t => (⟨Function.update s.clock c.node t, s.log ++ [⟨c.node, c.received, t⟩]⟩, .ok t)
  | .error e => (s, .error e)

def after (clock : N → Timestamp) (calls : List (Call N)) : Clocks N :=
  calls.foldl (fun s c => (s.call c).1) ⟨clock, []⟩

/-- The clock of a node is not behind what it has issued, and the order of the log is kept. -/
structure Inv (s : Clocks N) : Prop where
  ahead : ∀ e ∈ s.log, e.issued ≤ s.clock e.node
  caused : ∀ e ∈ s.log, ∀ m ∈ e.received, m < e.issued
  ordered : s.log.Pairwise fun e f => e.node = f.node → e.issued < f.issued

lemma Inv.call {s : Clocks N} (h : Inv s) (c : Call N) : Inv (s.call c).1 := by
  unfold Clocks.call
  cases hissue : c.issue (s.clock c.node) with
  | error e => exact h
  | ok t =>
    obtain ⟨hlt, hcause⟩ := Call.lt_issue hissue
    refine ⟨fun e he => ?_, fun e he => ?_, ?_⟩
    · simp only [Function.update_apply]
      rcases List.mem_append.mp he with he | he
      · have hahead := h.ahead e he
        split_ifs with hnode
        · rw [hnode] at hahead
          exact hahead.trans hlt.le
        · exact hahead
      · rw [List.mem_singleton.mp he, if_pos rfl]
    · rcases List.mem_append.mp he with he | he
      · exact h.caused e he
      · rw [List.mem_singleton.mp he]
        exact hcause
    · refine List.pairwise_append.mpr ⟨h.ordered, List.pairwise_singleton _ _, fun e he f hf hnode => ?_⟩
      rw [List.mem_singleton.mp hf] at hnode ⊢
      have hahead := h.ahead e he
      rw [hnode] at hahead
      exact hahead.trans_lt hlt

lemma inv_after (clock : N → Timestamp) (calls : List (Call N)) : Inv (after clock calls) := by
  have hrun : ∀ s : Clocks N, Inv s → Inv (calls.foldl (fun s c => (s.call c).1) s) := by
    induction calls with
    | nil => exact fun s hs => hs
    | cons c calls ih => exact fun s hs => ih _ (hs.call c)
  refine hrun _ ⟨?_, ?_, .nil⟩ <;> simp

/-- **Strictly monotone and causal**: over any run the timestamps that a node issues increase, they
are above those of the messages it has received, and a call that fails changes no clock. -/
theorem clocks_monotone_causal (clock : N → Timestamp) (calls : List (Call N)) :
    (after clock calls).log.Pairwise (fun e f => e.node = f.node →
        e.issued < f.issued ∧ ∀ m ∈ e.received, m < f.issued) ∧
      (∀ e ∈ (after clock calls).log, ∀ m ∈ e.received, m < e.issued) ∧
      ∀ c err, ((after clock calls).call c).2 = .error err →
        ((after clock calls).call c).1.clock = (after clock calls).clock := by
  have h := inv_after clock calls
  refine ⟨h.ordered.imp_of_mem fun he _ hlt hnode => ?_, h.caused, fun c err herr => ?_⟩
  · exact ⟨hlt hnode, fun m hm => (h.caused _ he m hm).trans (hlt hnode)⟩
  · simp only [call] at herr ⊢
    split at herr
    · cases herr
    · rfl

end Clocks

end HybridClock

end Aletheia
